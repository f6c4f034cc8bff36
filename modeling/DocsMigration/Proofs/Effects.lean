import DocsMigration.Proofs.Steps
/-! What work comes to, place by place. At each place, work that succeeds keeps what is there, fills the
place if nothing is there, or sets it whatever is there. Effects of works done one after the other combine
into an effect of the same kind. Work that is stopped leaves a place underway, and what is underway to an
effect has the same effect ahead of it as what it started from. -/

namespace DocsMigration

/-- What work comes to at one place. -/
inductive Effect where
  | keep
  | fill (e : Entry)
  | set (x : Option Entry)
deriving DecidableEq, Repr

namespace Effect

variable {e e' e'' : Effect} {v v' : Option Entry}

def on : Effect → Option Entry → Option Entry
  | keep, v => v
  | fill x, v => v.or (some x)
  | set x, _ => x

def followedBy : Effect → Effect → Effect
  | _, set x => set x
  | e, keep => e
  | keep, fill x => fill x
  | fill x, fill _ => fill x
  | set x, fill y => set (x.or (some y))

/-- What may be found at a place while an effect comes about that started from `v`. -/
def Underway (e : Effect) (v v' : Option Entry) : Prop :=
  match e with
  | keep => v' = v
  | fill _ => v' = v ∨ v' = e.on v
  | set _ => True

/-- Whether a step that leaves `left` helps an effect on. -/
def Permits (e : Effect) (v left : Option Entry) : Prop :=
  match e with
  | keep => False
  | fill x => v = none ∧ left = some x
  | set _ => True

/-- What has to hold at a place when an effect has come about. -/
def Met (e : Effect) (v : Option Entry) : Prop :=
  match e with
  | keep => True
  | fill _ => v ≠ none
  | set x => v = x

theorem on_followedBy : (e.followedBy e').on v = e'.on (e.on v) := by
  cases e <;> cases e' <;> simp [followedBy, on]

theorem followedBy_assoc : (e.followedBy e').followedBy e'' = e.followedBy (e'.followedBy e'') := by
  cases e <;> cases e' <;> cases e'' <;> simp [followedBy]

theorem keep_followedBy : keep.followedBy e = e := by cases e <;> rfl

theorem followedBy_keep : e.followedBy keep = e := by cases e <;> rfl

theorem underway_self : e.Underway v v := by cases e <;> simp [Underway]

theorem underway_on : e.Underway v (e.on v) := by cases e <;> simp [Underway, on]

/-- What is underway to an effect ends where its start would have ended. -/
theorem Underway.on_eq (h : e.Underway v v') : e.on v' = e.on v := by
  cases e with
  | keep => exact h
  | fill x =>
    rcases h with rfl | rfl
    · rfl
    · cases v <;> simp [on]
  | set x => rfl

theorem Underway.followedBy (h : e.Underway v v') : (e.followedBy e').Underway v v' := by
  cases e <;> cases e' <;> simp_all [Underway, Effect.followedBy, on]

theorem Underway.after (h : e'.Underway (e.on v) v') : (e.followedBy e').Underway v v' := by
  cases e <;> cases e' <;> simp_all [Underway, Effect.followedBy, on]

theorem underway_set_followedBy {x : Option Entry} : ((set x).followedBy e).Underway v v' := by
  cases e <;> simp [Effect.followedBy, Underway]

theorem Underway.eq_on_of_met (h : e.Underway v v') (hmet : e.Met v') : v' = e.on v := by
  cases e with
  | keep => exact h
  | fill x =>
    rcases h with rfl | h
    · obtain ⟨y, rfl⟩ := Option.ne_none_iff_exists'.1 hmet
      simp [on]
    · exact h
  | set x => exact hmet

/-- Whether doing something once more changes nothing about an effect. -/
def Within (e e' : Effect) : Prop :=
  match e' with
  | set _ => True
  | _ => e = keep ∨ e = e'

theorem Underway.trans_within {v'' : Option Entry} (h : e'.Underway v v') (hwithin : e.Within e')
    (h' : e.Underway v' v'') : e'.Underway v v'' := by
  cases e' with
  | set x => trivial
  | keep =>
    obtain rfl : e = keep := by simpa [Within] using hwithin
    exact h'.trans h
  | fill x =>
    rcases hwithin with rfl | rfl
    · obtain rfl : v'' = v' := h'
      exact h
    · rcases h' with rfl | rfl
      · exact h
      · right
        exact h.on_eq

def row (es : List Effect) : Effect := es.foldr followedBy keep

def Fills (x : Entry) : Effect → Prop
  | fill y => y = x
  | _ => True

/-- What holds of works, and of one work followed by another, holds of a row of them. -/
theorem row_induction {P : Effect → Prop} {es : List Effect} (hkeep : P keep)
    (hfollow : ∀ e e', P e → P e' → P (e.followedBy e')) (h : ∀ e ∈ es, P e) : P (row es) := by
  induction es with
  | nil => exact hkeep
  | cons e es ih =>
    obtain ⟨he, hes⟩ := List.forall_mem_cons.1 h
    exact hfollow e (row es) he (ih hes)

theorem Fills.followedBy {x : Entry} (h : e.Fills x) (h' : e'.Fills x) : (e.followedBy e').Fills x := by
  cases e <;> cases e' <;> first | exact h | exact h'

theorem fills_row {x : Entry} {es : List Effect} (h : ∀ e ∈ es, e.Fills x) : (row es).Fills x :=
  row_induction trivial (fun _ _ => Fills.followedBy) h

theorem within_followedBy {x : Entry} (h : e.Fills x) (h' : e'.Fills x) : e.Within (e.followedBy e') := by
  cases e <;> cases e' <;> simp_all [Effect.followedBy, Fills, Within]

theorem Within.after {x : Entry} (h : e.Within e'') (he' : e'.Fills x) (he'' : e''.Fills x) :
    e.Within (e'.followedBy e'') := by
  cases e' <;> cases e'' <;> simp_all [Effect.followedBy, Fills, Within]

/-- In a row of works that fill in one entry only, doing one of them once more changes nothing. -/
theorem within_row {x : Entry} {es : List Effect} (h : ∀ e ∈ es, e.Fills x) (he : e ∈ es) :
    e.Within (row es) := by
  induction es with
  | nil => simp at he
  | cons e' es ih =>
    obtain ⟨he', hes⟩ := List.forall_mem_cons.1 h
    rcases List.mem_cons.1 he with rfl | hmem
    · exact within_followedBy he' (fills_row hes)
    · exact (ih hes hmem).after he' (fills_row hes)

/-- Whether an effect leaves alone what is there already. -/
def Adds : Effect → Prop
  | set _ => False
  | _ => True

theorem Adds.followedBy (h : e.Adds) (h' : e'.Adds) : (e.followedBy e').Adds := by
  cases e <;> cases e' <;> first | exact h | exact h'

theorem adds_row {es : List Effect} (h : ∀ e ∈ es, e.Adds) : (row es).Adds :=
  row_induction trivial (fun _ _ => Adds.followedBy) h

theorem Adds.on_some {x : Entry} (h : e.Adds) : e.on (some x) = some x := by
  cases e with
  | keep | fill y => rfl
  | set y => exact h.elim

theorem Adds.on_cases {x : Entry} (h : e.Adds) (hfills : e.Fills x) (hv : v = none ∨ v = some x) :
    e.on v = none ∨ e.on v = some x := by
  cases e with
  | keep => exact hv
  | fill y =>
    obtain rfl : y = x := hfills
    rcases hv with rfl | rfl <;> exact .inr rfl
  | set y => exact h.elim

theorem Adds.of_on_eq {x : Entry} (h : e.Adds) (hfills : e.Fills x) (hon : e.on v = some x) :
    v = none ∨ v = some x := by
  cases e with
  | keep => exact .inr hon
  | fill y =>
    obtain rfl : y = x := hfills
    cases v with
    | none => exact .inl rfl
    | some z => exact .inr hon
  | set y => exact h.elim

theorem row_append {es es' : List Effect} : row (es ++ es') = (row es).followedBy (row es') := by
  induction es with
  | nil => exact keep_followedBy.symm
  | cons e es ih =>
    change e.followedBy (row (es ++ es')) = (e.followedBy (row es)).followedBy (row es')
    rw [ih, followedBy_assoc]

/-- Whether it does not matter which of two works is done first. -/
def Commutes (e e' : Effect) : Prop := e.followedBy e' = e'.followedBy e

/-- A row of works that commute has the same effect in any order. -/
theorem row_perm {es es' : List Effect} (h : es.Perm es') (hcommute : ∀ e ∈ es, ∀ e' ∈ es, e.Commutes e') :
    row es = row es' := by
  refine h.foldr_eq' (fun e he e' he' rest => ?_) keep
  rw [← followedBy_assoc, ← followedBy_assoc, hcommute e he e' he']

/-- What one of them sets is set by the row, since it might be the last. -/
theorem row_of_mem_set {es : List Effect} {x : Option Entry} (hmem : set x ∈ es)
    (hcommute : ∀ e ∈ es, ∀ e' ∈ es, e.Commutes e') : row es = set x := by
  have hlast : es.Perm (es.erase (set x) ++ [set x]) :=
    (List.perm_cons_erase hmem).trans (List.perm_append_singleton _ _).symm
  rw [row_perm hlast hcommute, row_append]
  rfl

end Effect

namespace Disk

variable {E E' : Location → Effect} {fragile fragile' : List Location} {d : Disk}
  {cs cs' : List Change}

/-- Whether steps do not end with the emptying of a fragile file, one that is only written where it is
missing. -/
def Settled (fragile : List Location) (cs : List Change) : Prop :=
  ∀ l ∈ fragile, cs.getLast? ≠ some (.write l (.text []))

/-- Steps that come to effects, and leave every place underway wherever they are stopped, only not when a
fragile file was just emptied. -/
structure Reaches (E : Location → Effect) (fragile : List Location) (d : Disk) (cs : List Change) :
    Prop where
  underway : ∀ ps, ps <+: cs → Settled fragile ps →
    ∀ l, (E l).Underway (d.get? l) ((d.after ps).get? l)
  reached : ∀ l, (d.after cs).get? l = (E l).on (d.get? l)

theorem reaches_nil : Reaches (fun _ => .keep) [] d [] :=
  ⟨fun ps hps _ l => by rw [List.prefix_nil.1 hps]; exact Effect.underway_self, fun _ => rfl⟩

theorem Reaches.append (h : Reaches E fragile d cs) (h' : Reaches E' fragile' (d.after cs) cs') :
    Reaches (fun l => (E l).followedBy (E' l)) (fragile ++ fragile') d (cs ++ cs') := by
  refine ⟨fun ps hps hsettled l => ?_, fun l => ?_⟩
  · rcases List.prefix_or_prefix_of_prefix hps (List.prefix_append cs cs') with hps' | ⟨qs, rfl⟩
    · exact (h.underway ps hps' (fun m hm => hsettled m (List.mem_append_left _ hm)) l).followedBy
    · have hqs : qs <+: cs' := (List.prefix_append_right_inj cs).1 hps
      rw [after_append]
      refine Effect.Underway.after ?_
      rw [← h.reached]
      by_cases hne : qs = []
      · rw [hne]
        exact Effect.underway_self
      · refine h'.underway qs hqs (fun m hm => ?_) l
        have hlast := hsettled m (List.mem_append_right _ hm)
        rwa [List.getLast?_append_of_ne_nil _ hne] at hlast
  · rw [after_append, h'.reached, h.reached, Effect.on_followedBy]

theorem Reaches.congr (h : Reaches E fragile d cs) (hE : ∀ l, E l = E' l) : Reaches E' fragile d cs := by
  obtain rfl : E = E' := funext hE
  exact h

theorem Reaches.cleared {E₀ : Location → Effect} (h : Reaches E fragile d cs)
    (hE : ∀ l, E₀ l = .keep ∨ E₀ l = .set none ∧ d.get? l = none) :
    Reaches (fun l => (E₀ l).followedBy (E l)) fragile d cs := by
  refine ⟨fun ps hps hsettled l => ?_, fun l => ?_⟩
  · rcases hE l with hkeep | ⟨hset, hnone⟩
    · rw [hkeep, Effect.keep_followedBy]
      exact h.underway ps hps hsettled l
    · rw [hset]
      exact Effect.underway_set_followedBy
  · rw [h.reached, Effect.on_followedBy]
    rcases hE l with hkeep | ⟨hset, hnone⟩
    · rw [hkeep]
      rfl
    · rw [hset, hnone]
      rfl

def Permits (E : Location → Effect) (d : Disk) (c : Change) : Prop :=
  c.location ≠ [] ∧ (E c.location).Permits (d.get? c.location) c.left

theorem underway_of_permits (hcs : d.Allows (Permits E) cs) (l : Location) :
    (E l).Underway (d.get? l) ((d.after cs).get? l) := by
  induction cs generalizing d with
  | nil => exact Effect.underway_self
  | cons c cs ih =>
    obtain ⟨⟨hne, hc⟩, hcs⟩ := hcs
    have hrest := ih hcs
    by_cases hl : l = c.location
    · subst hl
      rw [get?_apply_self hne] at hrest
      rw [after_cons]
      generalize E c.location = e at hc hrest
      generalize ((d.apply c).after cs).get? c.location = v at hrest
      cases e with
      | keep => exact hc.elim
      | fill x =>
        obtain ⟨hnone, hleft⟩ := hc
        rw [hleft] at hrest
        right
        simpa [Effect.Underway, Effect.on, hnone] using hrest
      | set x => trivial
    · rwa [get?_apply_of_ne hl] at hrest

theorem reaches_of_permits (hcs : d.Allows (Permits E) cs) (hmet : ∀ l, (E l).Met ((d.after cs).get? l)) :
    Reaches E [] d cs :=
  ⟨fun _ hps _ l => underway_of_permits (hcs.initial hps) l,
    fun l => (underway_of_permits hcs l).eq_on_of_met (hmet l)⟩

end Disk

namespace Work

open Disk

variable {ε α β : Type} {w : Workspace} {E E' : Location → Effect} {fragile fragile' : List Location}
  {Q : α → Disk → Prop} {R : β → Disk → Prop}

/-- Work that comes to effects when it succeeds. -/
def Achieves (E : Location → Effect) (fragile : List Location) (Q : α → Disk → Prop) (work : Work ε α)
    (w : Workspace) : Prop :=
  ∀ a w', work.outcome w = (.ok a, w') →
    ∃ cs, w' = w.after cs ∧ Reaches E fragile w.disk cs ∧ Q a w'.disk

theorem achieves_of_does {work : Work ε α} (h : work.Does (Permits E)
    (fun a d => (∀ l, (E l).Met (d.get? l)) ∧ Q a d) w) : work.Achieves E [] Q w := by
  obtain ⟨cs, hw, hcs, hq⟩ := h
  intro a w' hout
  rw [hout] at hw hq
  obtain rfl : w' = w.after cs := hw
  obtain ⟨hmet, ha⟩ := hq a rfl
  exact ⟨cs, rfl, reaches_of_permits hcs hmet, ha⟩

theorem Does.and_achieves {work : Work ε α} {P : Disk → Change → Prop} {R : α → Disk → Prop}
    (h : work.Does P R w) (hachieves : work.Achieves E fragile Q w) :
    work.Does P (fun a d => R a d ∧ Q a d) w := by
  obtain ⟨cs, hw, hcs, hr⟩ := h
  refine ⟨cs, hw, hcs, fun a ha => ⟨hr a ha, ?_⟩⟩
  obtain ⟨cs', hw', -, hq⟩ := hachieves a (w.after cs) (Prod.ext ha hw)
  exact hq

/-- Wherever work is stopped that succeeds, it is underway to its effects. -/
theorem Achieves.underway {work : Work ε α} {a : α} {w' : Workspace} {ps : List Change}
    (h : work.Achieves E fragile Q w) (hout : work.outcome w = (.ok a, w'))
    (hps : ps <+: work.steps w) (hsettled : Settled fragile ps) (l : Location) :
    (E l).Underway (w.disk.get? l) ((w.disk.after ps).get? l) := by
  obtain ⟨cs, hw', hcs, -⟩ := h a w' hout
  rw [steps_eq (by rw [hout, hw'])] at hps
  exact hcs.underway ps hps hsettled l

theorem achieves_pure {a : α} (h : Q a w.disk) :
    (pure a : Work ε α).Achieves (fun _ => .keep) [] Q w := by
  intro b w' hout
  obtain ⟨rfl, rfl⟩ := outcome_pure_eq_ok.1 hout
  exact ⟨[], by simp, reaches_nil, h⟩

theorem achieves_ask_bind {f : Disk → Location → β} {g : β → Work ε α}
    (h : (g (f w.disk w.cwd)).Achieves E fragile Q w) : (ask f >>= g).Achieves E fragile Q w := by
  intro a w' hout
  rw [outcome_ask_bind] at hout
  exact h a w' hout

theorem achieves_bind {x : Work ε β} {f : β → Work ε α} (hx : x.Achieves E fragile R w)
    (hf : ∀ b cs, R b (w.disk.after cs) → (f b).Achieves E' fragile' Q (w.after cs)) :
    (x >>= f).Achieves (fun l => (E l).followedBy (E' l)) (fragile ++ fragile') Q w := by
  intro a w' hout
  obtain ⟨b, w₁, hout₁, hout₂⟩ := outcome_bind_eq_ok.1 hout
  obtain ⟨cs, rfl, hcs, hb⟩ := hx b w₁ hout₁
  obtain ⟨cs', rfl, hcs', ha⟩ := hf b cs hb a w' hout₂
  exact ⟨cs ++ cs', by rw [Workspace.after_append], hcs.append hcs', ha⟩

theorem Achieves.mono {work : Work ε α} {Q' : α → Disk → Prop} (h : work.Achieves E fragile Q w)
    (hQ : ∀ a d, Q a d → Q' a d) : work.Achieves E fragile Q' w := by
  intro a w' hout
  obtain ⟨cs, hw, hcs, ha⟩ := h a w' hout
  exact ⟨cs, hw, hcs, hQ a _ ha⟩

theorem Achieves.congr {work : Work ε α} (h : work.Achieves E fragile Q w) (hE : ∀ l, E l = E' l) :
    work.Achieves E' fragile Q w := by
  intro a w' hout
  obtain ⟨cs, hw, hcs, ha⟩ := h a w' hout
  exact ⟨cs, hw, hcs.congr hE, ha⟩

theorem Achieves.settling {work : Work ε α} (h : work.Achieves E fragile Q w)
    (hfragile : fragile ⊆ fragile') : work.Achieves E fragile' Q w := by
  intro a w' hout
  obtain ⟨cs, hw, hcs, ha⟩ := h a w' hout
  exact ⟨cs, hw, ⟨fun ps hps hsettled => hcs.underway ps hps fun l hl => hsettled l (hfragile hl),
    hcs.reached⟩, ha⟩

theorem Achieves.and_does {work : Work ε α} {P : Disk → Change → Prop} {R : α → Disk → Prop}
    (h : work.Achieves E fragile Q w) (hdoes : work.Does P R w) :
    work.Achieves E fragile (fun a d => Q a d ∧ R a d) w := by
  intro a w' hout
  obtain ⟨cs, rfl, hcs, ha⟩ := h a w' hout
  obtain ⟨cs', hw', -, hr⟩ := hdoes
  rw [hout] at hw' hr
  have hdisk : (w.after cs).disk = w.disk.after cs' := congrArg Workspace.disk hw'
  exact ⟨cs, rfl, hcs, ha, hdisk ▸ hr a rfl⟩

theorem eq_map_of_forall₂ {f : β → α} {xs : List β} {as : List α}
    (h : List.Forall₂ (fun x a => a = f x) xs as) : as = xs.map f := by
  induction h with
  | nil => rfl
  | cons ha _ ih => rw [ha, ih, List.map_cons]

/-- The effects of a row of works of one kind; an invariant holds between them, and a relation between
what goes in and what comes out. -/
theorem achieves_mapM {f : β → Work ε α} {xs : List β} {Es : β → Location → Effect}
    {fragileOf : β → List Location} {I : Disk → Prop} {S : β → α → Prop} (hw : I w.disk)
    (hf : ∀ x ∈ xs, ∀ w' : Workspace, w'.cwd = w.cwd → I w'.disk →
      (f x).Achieves (Es x) (fragileOf x) (fun a d => S x a ∧ I d) w') :
    (xs.mapM f).Achieves (fun l => Effect.row (xs.map fun x => Es x l)) (xs.flatMap fragileOf)
      (fun as d => List.Forall₂ S xs as ∧ I d) w := by
  induction xs generalizing w with
  | nil => exact achieves_pure ⟨.nil, hw⟩
  | cons x xs ih =>
    rw [List.mapM_cons]
    have hrest : ∀ (b : α) (cs : List Change), S x b ∧ I (w.disk.after cs) →
        (xs.mapM f >>= fun bs => pure (b :: bs)).Achieves
          (fun l => Effect.row (xs.map fun x => Es x l)) (xs.flatMap fragileOf)
          (fun as d => List.Forall₂ S (x :: xs) as ∧ I d) (w.after cs) := by
      intro b cs ⟨hb, hI⟩
      have hxs := ih (w := w.after cs) hI fun y hy => hf y (List.mem_cons_of_mem x hy)
      have hall := achieves_bind (Q := fun as d => List.Forall₂ S (x :: xs) as ∧ I d) hxs
        fun bs ds hbs => achieves_pure ⟨.cons hb hbs.1, hbs.2⟩
      rw [List.append_nil] at hall
      exact hall.congr fun l => Effect.followedBy_keep
    exact achieves_bind (hf x (by simp) w rfl hw) hrest

end Work

end DocsMigration
