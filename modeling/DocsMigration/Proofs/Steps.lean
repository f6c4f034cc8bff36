import DocsMigration.Proofs.Walking
import DocsMigration.Migration.Error
/-! What work does to a disk, step by step. Whether work succeeds or fails, the disk afterwards comes
from the disk before by the steps that the journal gained. A judgement says which steps work may do,
each told by the disk at that moment, and what holds when it succeeds; it is put together along the
work, and what every single step keeps holds after any number of them. -/

namespace DocsMigration

namespace Disk

variable {P P' : Disk → Change → Prop} {d : Disk} {c : Change} {cs ds : List Change}

def after (d : Disk) (cs : List Change) : Disk := cs.foldl Disk.apply d

/-- Every one of the steps is allowed on the disk on which it is done. -/
def Allows (P : Disk → Change → Prop) (d : Disk) : List Change → Prop
  | [] => True
  | c :: cs => P d c ∧ Allows P (d.apply c) cs

@[simp] theorem after_nil : d.after [] = d := rfl

@[simp] theorem after_cons : d.after (c :: cs) = (d.apply c).after cs := rfl

theorem after_append : d.after (cs ++ ds) = (d.after cs).after ds := List.foldl_append

theorem get?_after_of_ne {l : Location} (h : ∀ c ∈ cs, l ≠ c.location) :
    (d.after cs).get? l = d.get? l := by
  induction cs generalizing d with
  | nil => rfl
  | cons c cs ih =>
    rw [after_cons, ih fun c' hc' => h c' (List.mem_cons_of_mem c hc'), get?_apply_of_ne (h c (by simp))]

theorem allows_append : d.Allows P (cs ++ ds) ↔ d.Allows P cs ∧ (d.after cs).Allows P ds := by
  induction cs generalizing d with
  | nil => simp [Allows]
  | cons c cs ih => simp [Allows, ih, and_assoc]

theorem allows_singleton : d.Allows P [c] ↔ P d c := by simp [Allows]

theorem Allows.initial {ps : List Change} (h : d.Allows P cs) (hps : ps <+: cs) : d.Allows P ps := by
  obtain ⟨qs, rfl⟩ := hps
  exact (allows_append.1 h).1

theorem Allows.mono (h : d.Allows P cs) (hP : ∀ d c, P d c → P' d c) : d.Allows P' cs := by
  induction cs generalizing d with
  | nil => trivial
  | cons c cs ih => exact ⟨hP d c h.1, ih h.2⟩

theorem Allows.and (h : d.Allows P cs) (h' : d.Allows P' cs) :
    d.Allows (fun d c => P d c ∧ P' d c) cs := by
  induction cs generalizing d with
  | nil => trivial
  | cons c cs ih => exact ⟨⟨h.1, h'.1⟩, ih h.2 h'.2⟩

theorem allows_of_forall {R : Change → Prop} (h : ∀ c ∈ cs, R c) : d.Allows (fun _ => R) cs := by
  induction cs generalizing d with
  | nil => trivial
  | cons c cs ih => exact ⟨h c (by simp), ih fun c' hc' => h c' (List.mem_cons_of_mem c hc')⟩

theorem Allows.keeps {I : Disk → Prop} (h : d.Allows P cs) (hd : I d)
    (hstep : ∀ d c, I d → P d c → I (d.apply c)) : I (d.after cs) := by
  induction cs generalizing d with
  | nil => exact hd
  | cons c cs ih => exact ih h.2 (hstep d c hd h.1)

/-- An invariant can be taken for granted at each step. -/
theorem Allows.with {I : Disk → Prop} (h : d.Allows P cs) (hd : I d)
    (hstep : ∀ d c, I d → P d c → I (d.apply c)) : d.Allows (fun d c => I d ∧ P d c) cs := by
  induction cs generalizing d with
  | nil => trivial
  | cons c cs ih => exact ⟨⟨hd, h.1⟩, ih h.2 (hstep d c hd h.1)⟩

theorem Plain.after_fits (h : d.Plain) (hP : ∀ d c, P d c → d.Fits c) (hcs : d.Allows P cs) :
    (d.after cs).Plain :=
  hcs.keeps h fun _ c hd hc => hd.apply_fits (hP _ c hc)

end Disk

def Workspace.after (w : Workspace) (cs : List Change) : Workspace :=
  { w with disk := w.disk.after cs, journal := w.journal ++ cs }

namespace Workspace

variable {w : Workspace} {cs ds : List Change}

@[simp] theorem after_nil : w.after [] = w := by simp [after]

@[simp] theorem disk_after : (w.after cs).disk = w.disk.after cs := rfl

@[simp] theorem cwd_after : (w.after cs).cwd = w.cwd := rfl

@[simp] theorem journal_after : (w.after cs).journal = w.journal ++ cs := rfl

@[simp] theorem host_after : (w.after cs).host = w.host := rfl

theorem after_append : w.after (cs ++ ds) = (w.after cs).after ds := by
  simp [after, Disk.after_append]

end Workspace

namespace Work

variable {ε α β : Type} {w : Workspace}

/-- How work ends, and the workspace it leaves. -/
def outcome (work : Work ε α) (w : Workspace) : Except ε α × Workspace := (work.run.run w).run

theorem ext {x y : Work ε α} (h : ∀ w, x.outcome w = y.outcome w) : x = y := funext h

theorem outcome_pure (a : α) : (pure a : Work ε α).outcome w = (.ok a, w) := rfl

theorem outcome_throw (e : ε) : (throw e : Work ε α).outcome w = (.error e, w) := rfl

theorem outcome_bind (x : Work ε α) (f : α → Work ε β) : (x >>= f).outcome w =
    match x.outcome w with
    | (.ok a, w') => (f a).outcome w'
    | (.error e, w') => (.error e, w') := by
  unfold outcome
  simp only [ExceptT.run_bind, StateT.run_bind, Id.run_bind]
  rcases h : (x.run.run w).run with ⟨r, w'⟩
  cases r <;> rfl

theorem outcome_tryCatch (x : Work ε α) (h : ε → Work ε α) : (tryCatch x h).outcome w =
    match x.outcome w with
    | (.ok a, w') => (.ok a, w')
    | (.error e, w') => (h e).outcome w' := by
  change Id.run (StateT.run (ExceptT.run (ExceptT.tryCatch x h)) w) = _
  unfold outcome ExceptT.tryCatch
  simp only [ExceptT.run_mk, StateT.run_bind, Id.run_bind]
  rcases hx : (x.run.run w).run with ⟨r, w'⟩
  change (StateT.run x w).run = (r, w') at hx
  rw [hx]
  cases r <;> rfl

theorem outcome_perform (c : Change) : (perform c : Work ε Unit).outcome w = (.ok (), w.after [c]) := rfl

theorem outcome_modify (f : Workspace → Workspace) :
    (modify f : Work ε Unit).outcome w = (.ok (), f w) := rfl

theorem outcome_get : (get : Work ε Workspace).outcome w = (.ok w, w) := rfl

theorem outcome_attempt (work : Work ε α) :
    work.attempt.outcome w = (.ok (work.outcome w).1, (work.outcome w).2) := rfl

theorem outcome_inspect (f : Disk → Location → Except ε α) :
    (inspect f).outcome w = (f w.disk w.cwd, w) := by
  unfold inspect
  rw [outcome_bind]
  change (inspect.liftExcept (f w.disk w.cwd)).outcome w = _
  cases f w.disk w.cwd <;> rfl

theorem outcome_ask (f : Disk → Location → α) :
    (ask f : Work ε α).outcome w = (.ok (f w.disk w.cwd), w) := rfl

theorem outcome_enumeration :
    (enumeration : Work ε Enumeration).outcome w = (.ok (w.host.enumeration w.journal), w) := rfl

theorem outcome_reportedAt (p : Path) (work : Work FileError α) :
    (MigrationWork.reportedAt p work).outcome w =
      ((work.outcome w).1.mapError (MigrationError.file p), (work.outcome w).2) := by
  unfold MigrationWork.reportedAt ExceptT.adapt outcome
  simp only [ExceptT.run_mk, StateT.run_map, Id.run_map]
  rfl

def steps (work : Work ε α) (w : Workspace) : List Change :=
  (work.outcome w).2.journal.drop w.journal.length

theorem steps_eq {work : Work ε α} {cs : List Change} (h : (work.outcome w).2 = w.after cs) :
    work.steps w = cs := by
  simp [steps, h]

theorem exists_of_isOk (work : Work ε α) (w : Workspace) (h : (work.outcome w).1.isOk) :
    ∃ a, work.outcome w = (.ok a, (work.outcome w).2) := by
  rcases hout : work.outcome w with ⟨r, w'⟩
  rw [hout] at h
  cases r with
  | error e => simp [Except.isOk, Except.toBool] at h
  | ok a => exact ⟨a, rfl⟩

theorem outcome_ask_bind {f : Disk → Location → α} {g : α → Work ε β} :
    (ask f >>= g).outcome w = (g (f w.disk w.cwd)).outcome w := by
  rw [outcome_bind, outcome_ask]

theorem outcome_bind_eq_ok {x : Work ε α} {f : α → Work ε β} {b : β} {w' : Workspace} :
    (x >>= f).outcome w = (.ok b, w') ↔
      ∃ a w₁, x.outcome w = (.ok a, w₁) ∧ (f a).outcome w₁ = (.ok b, w') := by
  rw [outcome_bind]
  rcases x.outcome w with ⟨r, w₁⟩
  cases r <;> simp

/-- Work that fails in the end never succeeds. -/
theorem outcome_bind_throw_ne_ok {x : Work ε α} {e : ε} {b : β} {w' : Workspace} :
    (x >>= fun _ => throw e).outcome w ≠ (.ok b, w') := by
  rw [ne_eq, outcome_bind_eq_ok]
  rintro ⟨a, w₁, -, h⟩
  simp [outcome_throw] at h

theorem outcome_pure_eq_ok {a b : α} {w' : Workspace} :
    (pure a : Work ε α).outcome w = (.ok b, w') ↔ b = a ∧ w' = w := by
  simp [outcome_pure, eq_comm]

theorem outcome_inspect_eq_ok {f : Disk → Location → Except ε α} {a : α} {w' : Workspace} :
    (inspect f).outcome w = (.ok a, w') ↔ f w.disk w.cwd = .ok a ∧ w' = w := by
  simp [outcome_inspect, eq_comm]

theorem outcome_reportedAt_eq_ok {work : Work FileError α} {p : Path} {a : α} {w' : Workspace} :
    (MigrationWork.reportedAt p work).outcome w = (.ok a, w') ↔ work.outcome w = (.ok a, w') := by
  rw [outcome_reportedAt]
  rcases work.outcome w with ⟨r, w₁⟩
  cases r <;> simp [Except.mapError]

/-- Work that does only steps allowed by `P`, and reaches `Q` if it succeeds. -/
def Does (P : Disk → Change → Prop) (Q : α → Disk → Prop) (work : Work ε α) (w : Workspace) : Prop :=
  ∃ cs, (work.outcome w).2 = w.after cs ∧ w.disk.Allows P cs ∧
    ∀ a, (work.outcome w).1 = .ok a → Q a (w.disk.after cs)

section Rules

variable {P P' : Disk → Change → Prop} {Q Q' : α → Disk → Prop} {R : β → Disk → Prop}

theorem Does.mono {work : Work ε α} (h : work.Does P Q w) (hP : ∀ d c, P d c → P' d c)
    (hQ : ∀ a d, Q a d → Q' a d) : work.Does P' Q' w := by
  obtain ⟨cs, hw, hcs, hq⟩ := h
  exact ⟨cs, hw, hcs.mono hP, fun a ha => hQ a _ (hq a ha)⟩

/-- What every step keeps may be used of the disk at the end. -/
theorem Does.with {work : Work ε α} {I : Disk → Prop} (h : work.Does P Q w) (hw : I w.disk)
    (hstep : ∀ d c, I d → P d c → I (d.apply c)) :
    work.Does (fun d c => I d ∧ P d c) (fun a d => I d ∧ Q a d) w := by
  obtain ⟨cs, hw', hcs, hq⟩ := h
  exact ⟨cs, hw', hcs.with hw hstep, fun a ha => ⟨hcs.keeps hw hstep, hq a ha⟩⟩

/-- Two judgements of the same work hold together: its steps are the same. -/
theorem Does.and {work : Work ε α} (h : work.Does P Q w) (h' : work.Does P' Q' w) :
    work.Does (fun d c => P d c ∧ P' d c) (fun a d => Q a d ∧ Q' a d) w := by
  obtain ⟨cs, hw, hcs, hq⟩ := h
  obtain ⟨cs', hw', hcs', hq'⟩ := h'
  obtain rfl : cs = cs' := by
    have hjournal := congrArg Workspace.journal (hw.symm.trans hw')
    simpa using hjournal
  exact ⟨cs, hw, hcs.and hcs', fun a ha => ⟨hq a ha, hq' a ha⟩⟩

theorem does_pure {a : α} (h : Q a w.disk) : (pure a : Work ε α).Does P Q w :=
  ⟨[], by simp [outcome_pure], trivial, fun a' ha' => by
    obtain rfl : a = a' := by simpa [outcome_pure] using ha'
    exact h⟩

theorem does_throw (e : ε) : (throw e : Work ε α).Does P Q w :=
  ⟨[], by simp [outcome_throw], trivial, fun a ha => by simp [outcome_throw] at ha⟩

/-- Work that goes on as other work does, once some steps are taken. -/
theorem Does.behind {work rest : Work ε α} {cs : List Change} (h : rest.Does P Q (w.after cs))
    (hcs : w.disk.Allows P cs) (hout : work.outcome w = rest.outcome (w.after cs)) : work.Does P Q w := by
  obtain ⟨ds, hw, hds, hq⟩ := h
  rw [Does, hout]
  refine ⟨cs ++ ds, ?_, Disk.allows_append.2 ⟨hcs, hds⟩, fun a ha => ?_⟩
  · rw [hw, Workspace.after_append]
  · rw [Disk.after_append]
    exact hq a ha

theorem does_bind {x : Work ε β} {f : β → Work ε α} (hx : x.Does P' R w) (hP : ∀ d c, P' d c → P d c)
    (hf : ∀ b cs, w.disk.Allows P' cs → R b (w.disk.after cs) → (f b).Does P Q (w.after cs)) :
    (x >>= f).Does P Q w := by
  obtain ⟨cs, hw, hcs', hr⟩ := hx
  have hcs : w.disk.Allows P cs := hcs'.mono hP
  rcases hout : x.outcome w with ⟨r, w'⟩
  rw [hout] at hw hr
  obtain rfl : w' = w.after cs := hw
  cases r with
  | error e => exact ⟨cs, by simp [outcome_bind, hout], hcs, fun a ha => by
      simp [outcome_bind, hout] at ha⟩
  | ok b =>
    have hbind : (x >>= f).outcome w = (f b).outcome (w.after cs) := by simp [outcome_bind, hout]
    exact (hf b cs hcs' (hr b rfl)).behind hcs hbind

theorem does_tryCatch {x : Work ε α} {h : ε → Work ε α} (hx : x.Does P Q w)
    (hh : ∀ e cs, (x.outcome w) = (.error e, w.after cs) → w.disk.Allows P cs →
      (h e).Does P Q (w.after cs)) : (tryCatch x h).Does P Q w := by
  obtain ⟨cs, hw, hcs, hr⟩ := hx
  rcases hout : x.outcome w with ⟨r, w'⟩
  rw [hout] at hw hr
  obtain rfl : w' = w.after cs := hw
  cases r with
  | ok a =>
    have hcatch : (tryCatch x h).outcome w = (.ok a, w.after cs) := by simp [outcome_tryCatch, hout]
    rw [Does, hcatch]
    exact ⟨cs, rfl, hcs, hr⟩
  | error e =>
    have hcatch : (tryCatch x h).outcome w = (h e).outcome (w.after cs) := by
      simp [outcome_tryCatch, hout]
    exact (hh e cs hout hcs).behind hcs hcatch

theorem does_perform {c : Change} {Q : Unit → Disk → Prop} (hc : P w.disk c)
    (h : Q () (w.disk.apply c)) : (perform c : Work ε Unit).Does P Q w :=
  ⟨[c], by simp [outcome_perform], Disk.allows_singleton.2 hc, fun _ _ => h⟩

/-- What each step leads to holds wherever work is stopped. -/
theorem Does.holds {work : Work ε α} {I : Disk → Prop} {ps : List Change}
    (h : work.Does (fun d c => I (d.apply c)) Q w) (hw : I w.disk) (hps : ps <+: work.steps w) :
    I (w.disk.after ps) := by
  obtain ⟨cs, hw', hcs, -⟩ := h
  rw [steps_eq hw'] at hps
  exact (hcs.initial hps).keeps hw fun _ _ _ hc => hc

theorem does_mapM {f : β → Work ε α} {xs : List β} {J : Disk → Prop} (hw : J w.disk)
    (hf : ∀ x ∈ xs, ∀ w' : Workspace, w'.cwd = w.cwd → J w'.disk → (f x).Does P (fun _ d => J d) w') :
    (xs.mapM f).Does P (fun _ d => J d) w := by
  induction xs generalizing w with
  | nil => exact does_pure hw
  | cons x xs ih =>
    rw [List.mapM_cons]
    refine does_bind (hf x (by simp) w rfl hw) (fun _ _ => id) fun _ cs _ hJ => ?_
    refine does_bind (ih hJ fun y hy => hf y (List.mem_cons_of_mem x hy)) (fun _ _ => id)
      fun _ _ _ hJ' => does_pure hJ'

theorem does_look_bind {x : Work ε β} {g : β → Work ε α} (hx : (x.outcome w).2 = w)
    (h : ∀ b, x.outcome w = (.ok b, w) → (g b).Does P Q w) : (x >>= g).Does P Q w := by
  rcases hout : x.outcome w with ⟨r, w'⟩
  rw [hout] at hx
  obtain rfl : w' = w := hx
  cases r with
  | error e =>
    refine ⟨[], ?_, trivial, fun a ha => ?_⟩
    · simp [outcome_bind, hout]
    · simp [outcome_bind, hout] at ha
  | ok b =>
    have hbind : (x >>= g).outcome w' = (g b).outcome w' := by simp [outcome_bind, hout]
    rw [Does, hbind]
    exact h b hout

theorem does_inspect_bind {f : Disk → Location → Except ε β} {g : β → Work ε α}
    (h : ∀ b, f w.disk w.cwd = .ok b → (g b).Does P Q w) : (inspect f >>= g).Does P Q w := by
  refine does_look_bind ?_ fun b hb => h b (outcome_inspect_eq_ok.1 hb).1
  rw [outcome_inspect]

theorem does_ask_bind {f : Disk → Location → β} {g : β → Work ε α}
    (h : (g (f w.disk w.cwd)).Does P Q w) : (ask f >>= g).Does P Q w := by
  rw [Does, outcome_ask_bind]
  exact h

theorem does_enumeration_bind {g : Enumeration → Work ε α} (h : ∀ o, (g o).Does P Q w) :
    (enumeration >>= g).Does P Q w :=
  does_look_bind rfl fun o _ => h o

theorem does_perform_bind {c : Change} {g : Unit → Work ε α} (hc : P w.disk c)
    (h : (g ()).Does P Q (w.after [c])) : (perform c >>= g).Does P Q w := by
  have hbind : (perform c >>= g).outcome w = (g ()).outcome (w.after [c]) := by
    simp [outcome_bind, outcome_perform]
  exact h.behind (Disk.allows_singleton.2 hc) hbind

theorem does_reportedAt {work : Work FileError α} {p : Path} (h : work.Does P Q w) :
    (MigrationWork.reportedAt p work).Does P Q w := by
  obtain ⟨cs, hw, hcs, hq⟩ := h
  rw [Does, outcome_reportedAt]
  refine ⟨cs, hw, hcs, fun a ha => hq a ?_⟩
  cases hr : (work.outcome w).1 with
  | error e => simp [hr, Except.mapError] at ha
  | ok b => simpa [hr, Except.mapError] using ha

theorem does_readAt_bind {f : Disk → Location → Except FileError β} {p : Path}
    {g : β → MigrationWork α} (h : ∀ b, f w.disk w.cwd = .ok b → (g b).Does P Q w) :
    (MigrationWork.reportedAt p (inspect f) >>= g).Does P Q w := by
  refine does_look_bind ?_ fun b hb => h b (outcome_inspect_eq_ok.1 (outcome_reportedAt_eq_ok.1 hb)).1
  rw [outcome_reportedAt, outcome_inspect]

end Rules

end Work

end DocsMigration
