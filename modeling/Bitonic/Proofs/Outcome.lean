import Bitonic.Failure
import Mathlib.Data.List.Forall2
/-!
# Steps of computations that may fail

* `Outcome.bind_of_ok` — a computation goes on with the value of a step that succeeds;
* `Outcome.bind_eq_ok_iff` — and succeeds only if its steps do;
* `Outcome.mapM_eq_ok_iff` — the values for the members of a list stand in the order of the list;
* `Outcome.mapM_eq_error_iff` — and the first member that fails ends it;
* `Count.ofNat_eq_ok_iff` — a count is a number below the limit.
-/

namespace Bitonic

namespace Count

theorem ofNat_eq_ok_iff {n c : Nat} : ofNat n = .ok c ↔ n < limit ∧ n = c := by
  unfold ofNat
  split
  · next h => exact ⟨fun hok => ⟨h, Except.ok.inj hok⟩, fun hok => congrArg Except.ok hok.2⟩
  · next h => exact ⟨nofun, fun hok => absurd hok.1 h⟩

theorem add_eq_ok_iff {a b c : Nat} : add a b = .ok c ↔ a + b < limit ∧ a + b = c :=
  ofNat_eq_ok_iff

theorem mul_eq_ok_iff {a b c : Nat} : mul a b = .ok c ↔ a * b < limit ∧ a * b = c :=
  ofNat_eq_ok_iff

theorem ofNat_eq_error {n : Nat} {fault : Fault} (h : ofNat n = .error fault) :
    fault = .overflow := by
  unfold ofNat at h
  split at h
  · cases h
  · cases h
    rfl

theorem sub_eq_ok_iff {a b c : Nat} : sub a b = .ok c ↔ b ≤ a ∧ a - b = c := by
  unfold sub
  split
  · next h => exact ⟨fun hok => ⟨h, Except.ok.inj hok⟩, fun hok => congrArg Except.ok hok.2⟩
  · next h => exact ⟨nofun, fun hok => absurd hok.1 h⟩

end Count

namespace Outcome

variable {ε α β : Type}

theorem bind_of_ok {x : Except ε α} {a : α} (h : x = .ok a) (f : α → Except ε β) :
    x >>= f = f a := by
  rw [h]
  rfl

theorem bind_eq_ok_iff {x : Except ε α} {f : α → Except ε β} {b : β} :
    x >>= f = .ok b ↔ ∃ a, x = .ok a ∧ f a = .ok b := by
  cases x with
  | error e =>
      constructor
      · intro h
        cases h
      · rintro ⟨a, h, _⟩
        cases h
  | ok a =>
      constructor
      · intro h
        exact ⟨a, rfl, h⟩
      · rintro ⟨a', h, hf⟩
        cases h
        exact hf

theorem liftM_ok (a : α) : (liftM (Except.ok a : Checked α) : Outcome α) = .ok a := rfl

theorem liftM_eq_ok_iff {x : Checked α} {a : α} : (liftM x : Outcome α) = .ok a ↔ x = .ok a := by
  cases x with
  | error f =>
      constructor
      · intro h
        cases h
      · intro h
        cases h
  | ok b =>
      constructor
      · intro h
        cases h
        rfl
      · intro h
        cases h
        rfl

theorem exists_eq_ok_of_isOk {x : Except ε α} (h : x.isOk = true) : ∃ a, x = .ok a := by
  cases x with
  | error e => cases h
  | ok a => exact ⟨a, rfl⟩

theorem mapM_eq_ok_iff {f : α → Except ε β} {as : List α} {bs : List β} :
    as.mapM f = .ok bs ↔ List.Forall₂ (fun a b => f a = .ok b) as bs := by
  induction as generalizing bs with
  | nil =>
      rw [List.mapM_nil, List.forall₂_nil_left_iff]
      constructor
      · intro h
        cases h
        rfl
      · intro h
        rw [h]
        rfl
  | cons a as ih =>
      rw [List.mapM_cons, List.forall₂_cons_left_iff, bind_eq_ok_iff]
      constructor
      · rintro ⟨b, hb, h⟩
        obtain ⟨bs', hbs, h⟩ := bind_eq_ok_iff.1 h
        cases h
        exact ⟨b, bs', hb, ih.1 hbs, rfl⟩
      · rintro ⟨b, bs', hb, hbs, rfl⟩
        refine ⟨b, hb, ?_⟩
        rw [bind_of_ok (ih.2 hbs)]
        rfl

theorem exists_mapM_eq_ok {f : α → Except ε β} {as : List α}
    (h : ∀ a ∈ as, ∃ b, f a = .ok b) : ∃ bs, as.mapM f = .ok bs := by
  induction as with
  | nil => exact ⟨[], rfl⟩
  | cons a as ih =>
      have hhead := h a List.mem_cons_self
      have htail := ih fun a ha => h a (List.mem_cons_of_mem _ ha)
      rcases hhead with ⟨b, hb⟩
      rcases htail with ⟨bs, hbs⟩
      refine ⟨b :: bs, ?_⟩
      rw [List.mapM_cons, bind_of_ok hb, bind_of_ok hbs]
      rfl

theorem allM_eq_ok {f : α → Except ε Bool} {g : α → Bool} {as : List α}
    (h : ∀ a ∈ as, f a = .ok (g a)) : as.allM f = .ok (as.all g) := by
  induction as with
  | nil => rfl
  | cons a as ih =>
      have hrest := ih fun a' ha' => h a' (List.mem_cons_of_mem a ha')
      rw [List.allM, bind_of_ok (h a List.mem_cons_self), List.all_cons]
      cases g a with
      | true => exact hrest
      | false => rfl

/-- Of several members that fail, the first one tells why the list does. -/
theorem mapM_eq_error_iff {f : α → Except ε β} {as : List α} {e : ε} :
    as.mapM f = .error e ↔ ∃ before a after, as = before ++ a :: after ∧
      (∀ a' ∈ before, ∃ b, f a' = .ok b) ∧ f a = .error e := by
  induction as with
  | nil => simp [pure, Except.pure]
  | cons a as ih =>
      rw [List.mapM_cons]
      cases ha : f a with
      | error e' =>
          constructor
          · intro h
            cases h
            exact ⟨[], a, as, rfl, nofun, ha⟩
          · rintro ⟨before, a', after, has, hbefore, hfails⟩
            cases before with
            | nil =>
                cases has
                rw [ha] at hfails
                cases hfails
                rfl
            | cons b before =>
                cases has
                rcases hbefore a List.mem_cons_self with ⟨b, hb⟩
                rw [ha] at hb
                cases hb
      | ok b =>
          have hrest : (as.mapM f >>= fun bs => pure (b :: bs)) = .error e ↔
              as.mapM f = .error e := by
            cases as.mapM f with
            | error e' => exact Iff.rfl
            | ok bs => exact ⟨nofun, nofun⟩
          rw [bind_of_ok rfl, hrest, ih]
          constructor
          · rintro ⟨before, a', after, rfl, hbefore, hfails⟩
            refine ⟨a :: before, a', after, rfl, fun c hc => ?_, hfails⟩
            rcases List.mem_cons.1 hc with rfl | hc
            · exact ⟨b, ha⟩
            · exact hbefore c hc
          · rintro ⟨before, a', after, has, hbefore, hfails⟩
            cases before with
            | nil =>
                cases has
                rw [ha] at hfails
                cases hfails
            | cons c before =>
                cases has
                exact ⟨before, a', after, rfl,
                  fun c hc => hbefore c (List.mem_cons_of_mem _ hc), hfails⟩

theorem exists_of_mapM_eq_error {f : α → Except ε β} {as : List α} {e : ε}
    (h : as.mapM f = .error e) : ∃ a ∈ as, f a = .error e := by
  rcases mapM_eq_error_iff.1 h with ⟨before, a, after, rfl, _, hfails⟩
  exact ⟨a, List.mem_append_right _ List.mem_cons_self, hfails⟩

/-- What can be told from each member is told in the order of the list. -/
theorem map_eq_of_mapM {γ : Type} {f : α → Except ε β} {g : β → γ} {k : α → γ} {as : List α}
    {bs : List β} (h : as.mapM f = .ok bs) (hg : ∀ a b, f a = .ok b → g b = k a) :
    bs.map g = as.map k := by
  have hpairs := mapM_eq_ok_iff.1 h
  clear h
  induction hpairs with
  | nil => rfl
  | cons hab rest ih => rw [List.map_cons, List.map_cons, hg _ _ hab, ih]

section Forall₂

variable {R : α → β → Prop} {as : List α} {bs : List β}

theorem exists_of_mem_left (h : List.Forall₂ R as bs) {a : α} (ha : a ∈ as) : ∃ b ∈ bs, R a b := by
  induction h with
  | nil => cases ha
  | cons hab rest ih =>
      rcases List.mem_cons.1 ha with rfl | ha
      · exact ⟨_, List.mem_cons_self, hab⟩
      · obtain ⟨b, hb, hR⟩ := ih ha
        exact ⟨b, List.mem_cons_of_mem _ hb, hR⟩

theorem exists_of_mem_right (h : List.Forall₂ R as bs) {b : β} (hb : b ∈ bs) : ∃ a ∈ as, R a b := by
  induction h with
  | nil => cases hb
  | cons hab rest ih =>
      rcases List.mem_cons.1 hb with rfl | hb
      · exact ⟨_, List.mem_cons_self, hab⟩
      · obtain ⟨a, ha, hR⟩ := ih hb
        exact ⟨a, List.mem_cons_of_mem _ ha, hR⟩

end Forall₂

theorem exists_mapM_eq_ok_iff {f : α → Except ε β} {as : List α} :
    (∃ bs, as.mapM f = .ok bs) ↔ ∀ a ∈ as, ∃ b, f a = .ok b := by
  refine ⟨?_, exists_mapM_eq_ok⟩
  rintro ⟨bs, hbs⟩ a ha
  rcases exists_of_mem_left (mapM_eq_ok_iff.1 hbs) ha with ⟨b, _, hb⟩
  exact ⟨b, hb⟩

theorem mapM_eq_map {γ : Type} {f : α → Except ε β} {f' : α → Except ε γ} {g : β → γ}
    (h : ∀ a, f' a = g <$> f a) (as : List α) : as.mapM f' = List.map g <$> as.mapM f := by
  induction as with
  | nil => rfl
  | cons a as ih =>
      simp only [List.mapM_cons, h, ih, map_bind, bind_map_left, map_pure, List.map_cons]

theorem mapM_flatMap {γ : Type} (f : α → List γ) (g : γ → Except ε β) (as : List α) :
    (as.flatMap f).mapM g = List.flatten <$> as.mapM fun a => (f a).mapM g := by
  induction as with
  | nil => rfl
  | cons a as ih =>
      rw [List.flatMap_cons, List.mapM_append, ih, List.mapM_cons]
      simp only [bind_map_left, map_bind, map_pure, List.flatten_cons]

theorem foldlM_congr {step step' : β → α → Except ε β} {as : List α}
    (h : ∀ a ∈ as, ∀ b, step' b a = step b a) (b : β) : as.foldlM step' b = as.foldlM step b := by
  induction as generalizing b with
  | nil => rfl
  | cons a as ih =>
      rw [List.foldlM_cons, List.foldlM_cons, h a List.mem_cons_self]
      exact congrArg _ (funext (ih fun a' ha' => h a' (List.mem_cons_of_mem a ha')))

theorem foldlM_preserves {P : β → Prop} {step : β → α → Except ε β} {as : List α} {b b' : β}
    (hstep : ∀ a ∈ as, ∀ b b', P b → step b a = .ok b' → P b')
    (hrun : as.foldlM step b = .ok b') (hb : P b) : P b' := by
  induction as generalizing b with
  | nil =>
      cases hrun
      exact hb
  | cons a as ih =>
      rw [List.foldlM_cons, bind_eq_ok_iff] at hrun
      obtain ⟨b₁, hfirst, hrest⟩ := hrun
      exact ih (fun a' ha' => hstep a' (List.mem_cons_of_mem a ha')) hrest
        (hstep a List.mem_cons_self b b₁ hb hfirst)

/-- A loop can be followed through a map of its states if each of its steps can, at the states that
it comes through. -/
theorem foldlM_map_of {γ : Type} {P : β → Prop} {φ : β → γ} {step : β → α → Except ε β}
    {step' : γ → α → Except ε γ} {as : List α} {b : β}
    (hP : ∀ a ∈ as, ∀ b b', P b → step b a = .ok b' → P b')
    (h : ∀ a ∈ as, ∀ b, P b → step' (φ b) a = φ <$> step b a) (hb : P b) :
    as.foldlM step' (φ b) = φ <$> as.foldlM step b := by
  induction as generalizing b with
  | nil => rfl
  | cons a as ih =>
      rw [List.foldlM_cons, List.foldlM_cons, h a List.mem_cons_self b hb]
      cases hstep : step b a with
      | error e => rfl
      | ok b' =>
          exact ih (fun a' ha' => hP a' (List.mem_cons_of_mem a ha'))
            (fun a' ha' => h a' (List.mem_cons_of_mem a ha'))
            (hP a List.mem_cons_self b b' hb hstep)

theorem foldlM_map {γ : Type} {φ : β → γ} {step : β → α → Except ε β}
    {step' : γ → α → Except ε γ} (h : ∀ b a, step' (φ b) a = φ <$> step b a) (as : List α) (b : β) :
    as.foldlM step' (φ b) = φ <$> as.foldlM step b :=
  foldlM_map_of (P := fun _ => True) (fun _ _ _ _ _ _ => trivial) (fun a _ b _ => h b a) trivial

/-! ## Kinds of failures -/

section FailsOnly

variable {P : Failure → Prop} {x : Outcome α}

/-- Every failure of the computation is one of a kind. -/
def FailsOnly (P : Failure → Prop) (x : Outcome α) : Prop := ∀ failure, x = .error failure → P failure

theorem failsOnly_ok (P : Failure → Prop) (a : α) : FailsOnly P (.ok a) := nofun

theorem failsOnly_error {failure : Failure} (h : P failure) :
    FailsOnly P (.error failure : Outcome α) := by
  rintro _ ⟨⟩
  exact h

theorem failsOnly_liftM_of {x : Checked α} (h : ∀ fault, x = .error fault → P (.fault fault)) :
    FailsOnly P (liftM x : Outcome α) := by
  cases x with
  | error fault => exact failsOnly_error (h fault rfl)
  | ok a => exact failsOnly_ok P a

theorem FailsOnly.bind {f : α → Outcome β} (hx : x.FailsOnly P)
    (hf : ∀ a, x = .ok a → (f a).FailsOnly P) : (x >>= f).FailsOnly P := by
  cases x with
  | error failure => exact failsOnly_error (hx failure rfl)
  | ok a => exact hf a rfl

theorem FailsOnly.map (hx : x.FailsOnly P) (g : α → β) : FailsOnly P (x.map g) := by
  cases x with
  | error failure => exact failsOnly_error (hx failure rfl)
  | ok a => exact failsOnly_ok P (g a)

theorem failsOnly_foldlM {f : β → α → Outcome β} {as : List α}
    (hf : ∀ a ∈ as, ∀ b, (f b a).FailsOnly P) (b : β) : (as.foldlM f b).FailsOnly P := by
  induction as generalizing b with
  | nil => exact failsOnly_ok P b
  | cons a as ih =>
      rw [List.foldlM_cons]
      exact (hf a List.mem_cons_self b).bind fun b' _ =>
        ih (fun a' ha' => hf a' (List.mem_cons_of_mem a ha')) b'

end FailsOnly

end Outcome

end Bitonic
