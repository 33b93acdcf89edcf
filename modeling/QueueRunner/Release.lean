import QueueRunner.Verdicts

/-!
# The release of dependencies

A step becomes runnable with its last dependency.  `Step.Frees P` is what
may happen to a step while dependencies whose path has `P` are released:
only such dependencies go away, and a step that becomes runnable was
created and had no other ones.
-/

namespace QueueRunner

/-- A step loses dependencies with `P`, and may become runnable with the
last one. -/
structure Step.Frees (P : StorePath → Prop) (r r' : Step) : Prop where
  finished : r'.finished = true → r.finished = true
  created : r'.created = true → r.created = true
  runnable : r'.runnable = true → r.runnable = true ∨
    (r.created = true ∧ ∀ d ∈ r.deps, P d.drvPath)
  deps : ∀ d ∈ r.deps, d ∈ r'.deps ∨ P d.drvPath
  depsLen : r.depsLen = r.deps.length → r'.depsLen = r'.deps.length

namespace Step.Frees

variable {P : StorePath → Prop} {r r' r'' : Step}

theorem refl (r : Step) : Step.Frees P r r :=
  ⟨id, id, Or.inl, fun _ => Or.inl, id⟩

theorem trans (h : Step.Frees P r r') (h' : Step.Frees P r' r'') : Step.Frees P r r'' where
  finished hf := h.finished (h'.finished hf)
  created hc := h.created (h'.created hc)
  runnable hr := by
    rcases h'.runnable hr with hr | ⟨hc, hdeps⟩
    · exact h.runnable hr
    · exact Or.inr ⟨h.created hc, fun d hd => (h.deps d hd).elim (hdeps d) id⟩
  deps d hd := (h.deps d hd).elim (h'.deps d) Or.inr
  depsLen hlen := h'.depsLen (h.depsLen hlen)

/-- A change of other fields. -/
theorem of_eq (hfinished : r'.finished = r.finished) (hcreated : r'.created = r.created)
    (hrunnable : r'.runnable = r.runnable) (hdeps : r'.deps = r.deps)
    (hdepsLen : r'.depsLen = r.depsLen) : Step.Frees P r r' where
  finished hf := hfinished ▸ hf
  created hc := hcreated ▸ hc
  runnable hr := Or.inl (hrunnable ▸ hr)
  deps d hd := Or.inl (hdeps ▸ hd)
  depsLen hlen := by rw [hdepsLen, hdeps, hlen]

end Step.Frees

/-- Every step that exists is freed, and the others are new. -/
structure Graph.Frees (P : StorePath → Prop) (g g' : Graph) : Prop where
  fresh : g.fresh ≤ g'.fresh
  step : ∀ s, Step.Frees P (g.step s) (g'.step s) ∨
    g.fresh ≤ s.gen ∧ Step.IsNew (g'.step s)

namespace Graph.Frees

variable {P : StorePath → Prop} {g g' : Graph}

theorem of_keeps (h : Keeps (Step.Frees P) g g') (hfresh : g'.fresh = g.fresh) :
    g.Frees P g' :=
  ⟨Nat.le_of_eq hfresh.symm, fun s => Or.inl (h s)⟩

theorem refl (g : Graph) : g.Frees P g := of_keeps (Keeps.refl Step.Frees.refl g) rfl

/-- The steps stay as they are. -/
theorem of_step (hstep : g'.step = g.step) (hfresh : g.fresh ≤ g'.fresh) : g.Frees P g' :=
  ⟨hfresh, fun s => Or.inl (by rw [hstep]; exact .refl _)⟩

theorem modifyStep (g : Graph) (s : StepRef) {f : Step → Step}
    (hf : Step.Frees P (g.step s) (f (g.step s))) : g.Frees P (g.modifyStep s f) :=
  of_keeps (Keeps.modifyStep Step.Frees.refl hf) rfl

theorem step_of_lt (h : g.Frees P g') {s : StepRef} (hs : s.gen < g.fresh) :
    Step.Frees P (g.step s) (g'.step s) :=
  (h.step s).resolve_right fun hnew => absurd hs (Nat.not_lt.mpr hnew.1)

theorem of_fades (h : g.Fades g') : g.Frees P g' := by
  refine of_keeps (fun s => ?_) h.fresh
  rw [h.step s]
  exact .of_eq rfl rfl rfl rfl rfl

theorem addDep (g : Graph) (s dep : StepRef) : g.Frees P (g.addDep s dep) := by
  unfold Graph.addDep
  refine modifyStep g s ⟨id, id, Or.inl, fun d hd => Or.inl ?_, fun _ => rfl⟩
  unfold insertStep
  split_ifs
  · exact hd
  · exact List.mem_append_left _ hd

/-- `Steps::create`. -/
theorem of_created {drvPath : StorePath} {build : Option BuildRef}
    {step : Option StepRef} {s : StepRef} {isNew : Bool}
    (h : Created g drvPath build step g' s isNew) : g.Frees P g' := by
  refine ⟨(Grows.of_created h).fresh, fun t => ?_⟩
  rw [h.step]
  split_ifs with hts hnew
  · rw [hts, (h.notFound hnew).2]
    exact Or.inr ⟨le_refl _, rfl, rfl, rfl, rfl, rfl, rfl⟩
  · subst hts
    exact Or.inl (.of_eq rfl rfl rfl rfl rfl)
  · exact Or.inl (.refl _)

/-- One step that waits for a finished one. -/
theorem keeps_releaseRdep {self : StepRef} (hself : P self.drvPath) (now : Timestamp)
    (g : Graph) (rdep : StepRef) :
    Keeps (Step.Frees P) g (releaseRdep self now g rdep) := by
  unfold releaseRdep
  split_ifs with halive
  case neg => exact Keeps.refl Step.Frees.refl g
  have hdrop : Step.Frees P (g.step rdep) { g.step rdep with
      deps := (g.step rdep).deps.filter (fun d => d.drvPath != self.drvPath)
      depsLen := ((g.step rdep).deps.filter
        (fun d => d.drvPath != self.drvPath)).length } := by
    refine ⟨id, id, Or.inl, fun d hd => ?_, fun _ => rfl⟩
    by_cases hpath : d.drvPath = self.drvPath
    · exact Or.inr (hpath ▸ hself)
    · exact Or.inl (List.mem_filter.mpr ⟨hd, by simpa using hpath⟩)
  simp only
  split_ifs with hlast
  · -- the last dependency goes, and the step becomes runnable
    unfold makeRunnable
    split_ifs
    · exact Keeps.modifyStep Step.Frees.refl hdrop
    · refine Keeps.trans (fun _ _ _ => Step.Frees.trans)
        (Keeps.modifyStep Step.Frees.refl hdrop) (Keeps.modifyStep Step.Frees.refl ?_)
      refine ⟨id, id, fun _ => Or.inr ⟨hlast.2, fun d hd => ?_⟩, fun _ => Or.inl, id⟩
      rw [modifyStep_step, if_pos rfl] at hd
      simp only [hlast.1] at hd
      cases hd
  · exact Keeps.modifyStep Step.Frees.refl hdrop

theorem keeps_makeRdepsRunnable {s : StepRef}
    (hs : (g.step s).finished = true → P s.drvPath) (now : Timestamp) :
    Keeps (Step.Frees P) g (g.makeRdepsRunnable now s) := by
  unfold Graph.makeRdepsRunnable
  split_ifs with hfin
  · refine Keeps.trans (fun _ _ _ => Step.Frees.trans) ?_
      (Keeps.modifyStep Step.Frees.refl (.of_eq rfl rfl rfl rfl rfl))
    exact Keeps.foldl Step.Frees.refl (fun _ _ _ => Step.Frees.trans)
      (keeps_releaseRdep (hs hfin) now) _ g
  · exact Keeps.refl Step.Frees.refl g

theorem makeRdepsRunnable {s : StepRef}
    (hs : (g.step s).finished = true → P s.drvPath) (now : Timestamp) :
    g.Frees P (g.makeRdepsRunnable now s) :=
  of_keeps (keeps_makeRdepsRunnable hs now) (SameMaps.makeRdepsRunnable g now s).fresh

theorem sweepSteps (hfinished : ∀ s, (g.step s).finished = true → P s.drvPath)
    (now : Timestamp) (order : List StepRef) : g.Frees P (g.sweepSteps now order) := by
  refine of_keeps ?_ (SameMaps.sweepSteps g now order).fresh
  unfold Graph.sweepSteps
  -- the sweep finishes no step, so the assumption holds at each turn
  induction order generalizing g with
  | nil => exact Keeps.refl Step.Frees.refl g
  | cons s order ih =>
    have hone : Keeps (Step.Frees P) g (sweepStep now g s) := by
      unfold sweepStep
      split_ifs
      · exact keeps_makeRdepsRunnable (hfinished s) now
      · exact Keeps.refl Step.Frees.refl g
    exact Keeps.trans (fun _ _ _ => Step.Frees.trans) hone
      (ih fun t ht => hfinished t ((hone t).finished ht))

end Graph.Frees

end QueueRunner
