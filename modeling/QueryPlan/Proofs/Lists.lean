import Mathlib.Data.List.Forall2
import Mathlib.Data.List.Induction
import Mathlib.Data.List.Nodup
import Mathlib.Data.List.Pairwise
import Mathlib.Data.List.Perm.Basic

/-!
# Lists

Two subjects on which the library has little: going through a list with a function that may fail,
and the first occurrences in a list (`eraseDups`).  The second matters because groups come in the
order of their first rows: first occurrences can be taken before or after rows are dropped
(`filter_eraseDups`) or mapped (`eraseDups_map_eraseDups`), and a list falls into the parts over its
first keys (`perm_flatMap_filter`).
-/

set_option autoImplicit false

namespace QueryPlan

/-! ## Going through a list -/

section Monadic

variable {α β ε : Type}

theorem bind_eq_ok_iff {x : Except ε α} {f : α → Except ε β} {b : β} :
    (x >>= f) = .ok b ↔ ∃ a, x = .ok a ∧ f a = .ok b := by
  cases x <;> simp [bind, Except.bind]

theorem map_eq_ok_iff {x : Except ε α} {f : α → β} {b : β} :
    x.map f = .ok b ↔ ∃ a, x = .ok a ∧ f a = b := by
  cases x <;> simp [Except.map]

theorem exists_error_iff {x : Except ε α} : (∃ e, x = .error e) ↔ ¬ ∃ a, x = .ok a := by
  cases x <;> simp

theorem pure_eq_ok_iff {a b : α} : (pure a : Except ε α) = .ok b ↔ a = b :=
  ⟨Except.ok.inj, congrArg _⟩

theorem mapM_eq_some_iff {f : α → Option β} {l : List α} {l' : List β} :
    l.mapM f = some l' ↔ List.Forall₂ (fun a b => f a = some b) l l' := by
  induction l generalizing l' with
  | nil =>
    rw [List.mapM_nil, List.forall₂_nil_left_iff]
    exact ⟨fun h => (Option.some.inj h).symm, fun h => h ▸ rfl⟩
  | cons a l ih =>
    rw [List.mapM_cons, List.forall₂_cons_left_iff]
    constructor
    · intro h
      obtain ⟨b, hb, h⟩ := Option.bind_eq_some_iff.mp h
      obtain ⟨bs, hbs, h⟩ := Option.bind_eq_some_iff.mp h
      exact ⟨b, bs, hb, ih.mp hbs, (Option.some.inj h).symm⟩
    · rintro ⟨b, bs, hb, hbs, rfl⟩
      rw [hb, ih.mpr hbs]
      rfl

theorem mapM_eq_ok_iff {f : α → Except ε β} {l : List α} {l' : List β} :
    l.mapM f = .ok l' ↔ List.Forall₂ (fun a b => f a = .ok b) l l' := by
  induction l generalizing l' with
  | nil => rw [List.mapM_nil, List.forall₂_nil_left_iff, pure_eq_ok_iff, eq_comm]
  | cons a l ih =>
    rw [List.mapM_cons, List.forall₂_cons_left_iff]
    simp only [bind_eq_ok_iff, pure_eq_ok_iff, ih]
    constructor
    · rintro ⟨b, hb, bs, hbs, rfl⟩
      exact ⟨b, bs, hb, hbs, rfl⟩
    · rintro ⟨b, bs, hb, hbs, rfl⟩
      exact ⟨b, hb, bs, hbs, rfl⟩

/-- What stands in one of two matching lists has its match in the other. -/
theorem forall₂_exists_of_mem {R : α → β → Prop} {l : List α} {l' : List β}
    (h : List.Forall₂ R l l') {a : α} (ha : a ∈ l) : ∃ b ∈ l', R a b := by
  induction h with
  | nil => cases ha
  | cons hab _ ih =>
    rcases List.mem_cons.mp ha with rfl | ha
    · exact ⟨_, List.mem_cons_self, hab⟩
    · obtain ⟨b, hb, hR⟩ := ih ha
      exact ⟨b, List.mem_cons_of_mem _ hb, hR⟩

theorem exists_of_forall₂_mem {R : α → β → Prop} {l : List α} {l' : List β}
    (h : List.Forall₂ R l l') {b : β} (hb : b ∈ l') : ∃ a ∈ l, R a b :=
  forall₂_exists_of_mem h.flip hb

theorem forall₂_congr_of_mem {R S : α → β → Prop} {l : List α} {l' : List β}
    (h : ∀ a ∈ l, ∀ b, R a b ↔ S a b) : List.Forall₂ R l l' ↔ List.Forall₂ S l l' := by
  induction l generalizing l' with
  | nil => rw [List.forall₂_nil_left_iff, List.forall₂_nil_left_iff]
  | cons a l ih =>
    rw [List.forall₂_cons_left_iff, List.forall₂_cons_left_iff]
    simp only [h a List.mem_cons_self, ih fun b hb => h b (List.mem_cons_of_mem _ hb)]

theorem forall₂_imp_of_mem {R S : α → β → Prop} {l : List α} {l' : List β}
    (h : List.Forall₂ R l l') (hRS : ∀ a ∈ l, ∀ b ∈ l', R a b → S a b) : List.Forall₂ S l l' := by
  induction h with
  | nil => exact .nil
  | cons hab _ ih =>
    refine .cons (hRS _ List.mem_cons_self _ List.mem_cons_self hab) (ih fun a ha b hb => ?_)
    exact hRS a (List.mem_cons_of_mem _ ha) b (List.mem_cons_of_mem _ hb)

/-- What holds of all of one of two matching lists, and what then holds of all of the other. -/
theorem forall₂_forall_iff {R : α → β → Prop} {p : α → Prop} {q : β → Prop} {l : List α}
    {l' : List β} (h : List.Forall₂ R l l') (hpq : ∀ a b, R a b → (p a ↔ q b)) :
    (∀ a ∈ l, p a) ↔ ∀ b ∈ l', q b := by
  induction h with
  | nil => simp
  | cons hab _ ih => rw [List.forall_mem_cons, List.forall_mem_cons, hpq _ _ hab, ih]

/-- Lists matched so that what is made of them is equal. -/
theorem map_eq_map_of_forall₂ {γ : Type} {R : α → β → Prop} {f : α → γ} {g : β → γ} {l : List α}
    {l' : List β} (h : List.Forall₂ R l l') (hfg : ∀ a ∈ l, ∀ b ∈ l', R a b → f a = g b) :
    l.map f = l'.map g := by
  rw [← List.forall₂_eq_eq_eq, List.forall₂_map_left_iff, List.forall₂_map_right_iff]
  exact forall₂_imp_of_mem h hfg

theorem any_congr_of_mem {p q : α → Bool} {l : List α} (h : ∀ a ∈ l, p a = q a) :
    l.any p = l.any q := by
  induction l with
  | nil => rfl
  | cons a l ih =>
    rw [List.any_cons, List.any_cons, h a List.mem_cons_self,
      ih fun b hb => h b (List.mem_cons_of_mem _ hb)]

theorem forall₂_mem_zip {l : List α} {l' : List β} (h : l.length = l'.length) :
    List.Forall₂ (fun a b => (a, b) ∈ l.zip l') l l' :=
  List.forall₂_iff_zip.mpr ⟨h, id⟩

theorem exists_getElem?_of_forall₂ {R : α → β → Prop} {l : List α} {l' : List β}
    (h : List.Forall₂ R l l') {i : Nat} {a : α} (ha : l[i]? = some a) :
    ∃ b, l'[i]? = some b ∧ R a b := by
  induction h generalizing i with
  | nil => cases ha
  | cons hab _ ih =>
    cases i with
    | zero =>
      obtain rfl := Option.some.inj ha
      exact ⟨_, rfl, hab⟩
    | succ i => exact ih ha

theorem ne_nil_of_forall₂ {R : α → β → Prop} {l : List α} {l' : List β}
    (h : List.Forall₂ R l l') (hne : l ≠ []) : l' ≠ [] := by
  rintro rfl
  exact hne (List.forall₂_nil_right_iff.mp h)

theorem exists_forall₂ {R : α → β → Prop} {l : List α} (h : ∀ a ∈ l, ∃ b, R a b) :
    ∃ l', List.Forall₂ R l l' := by
  induction l with
  | nil => exact ⟨[], .nil⟩
  | cons a l ih =>
    obtain ⟨b, hb⟩ := h a List.mem_cons_self
    obtain ⟨l', hl'⟩ := ih fun x hx => h x (List.mem_cons_of_mem _ hx)
    exact ⟨b :: l', .cons hb hl'⟩

/-- Going through a list succeeds if it does at each place. -/
theorem exists_mapM_eq_ok_iff {f : α → Except ε β} {l : List α} :
    (∃ l', l.mapM f = .ok l') ↔ ∀ a ∈ l, ∃ b, f a = .ok b := by
  simp only [mapM_eq_ok_iff]
  exact ⟨fun ⟨_, h⟩ a ha => (forall₂_exists_of_mem h ha).imp fun _ hb => hb.2, exists_forall₂⟩

/-- What a function answers at each place, if it answers at all, makes the list of its answers. -/
theorem eq_map_of_mapM_eq_ok {f : α → Except ε β} {g : α → β} {l : List α} {l' : List β}
    (h : l.mapM f = .ok l') (hfg : ∀ a ∈ l, ∀ b, f a = .ok b → b = g a) : l' = l.map g := by
  have hanswers : l'.map id = l.map g := (map_eq_map_of_forall₂ (mapM_eq_ok_iff.mp h)
    fun a ha b _ hb => (hfg a ha b hb).symm).symm
  rwa [List.map_id] at hanswers

/-- Where everything is matched with itself alone, a list matches only itself. -/
theorem forall₂_iff_eq {R : α → α → Prop} {l l' : List α} (h : ∀ a ∈ l, ∀ b, R a b ↔ b = a) :
    List.Forall₂ R l l' ↔ l' = l := by
  rw [forall₂_congr_of_mem (S := fun a b => a = b) fun a ha b => (h a ha b).trans eq_comm,
    List.forall₂_eq_eq_eq, eq_comm]

theorem forall₂_concat_iff {R : α → β → Prop} {l : List α} {a : α} {l' : List β} :
    List.Forall₂ R (l ++ [a]) l' ↔
      ∃ l'' b, List.Forall₂ R l l'' ∧ R a b ∧ l' = l'' ++ [b] := by
  rw [← List.forall₂_reverse_iff, List.reverse_append, List.reverse_singleton,
    List.singleton_append, List.forall₂_cons_left_iff]
  constructor
  · rintro ⟨b, l'', hab, hl, hl'⟩
    refine ⟨l''.reverse, b, ?_, hab, ?_⟩
    · rwa [← List.forall₂_reverse_iff, List.reverse_reverse]
    · rw [← List.reverse_reverse l', hl', List.reverse_cons]
  · rintro ⟨l'', b, hl, hab, rfl⟩
    exact ⟨b, l''.reverse, hab, List.forall₂_reverse_iff.mpr hl, by simp⟩

/-- Two matchings, one after the other. -/
theorem forall₂_comp_iff {γ : Type} {R : α → β → Prop} {S : β → γ → Prop} {l : List α}
    {l'' : List γ} : (∃ l', List.Forall₂ R l l' ∧ List.Forall₂ S l' l'') ↔
      List.Forall₂ (fun a c => ∃ b, R a b ∧ S b c) l l'' := by
  constructor
  · rintro ⟨l', hR, hS⟩
    induction hR generalizing l'' with
    | nil => cases hS; exact .nil
    | cons hab _ ih =>
      obtain - | ⟨hbc, hS⟩ := hS
      exact .cons ⟨_, hab, hbc⟩ (ih hS)
  · intro h
    induction h with
    | nil => exact ⟨[], .nil, .nil⟩
    | cons hac _ ih =>
      obtain ⟨b, hab, hbc⟩ := hac
      obtain ⟨l', hR, hS⟩ := ih
      exact ⟨b :: l', .cons hab hR, .cons hbc hS⟩

end Monadic

/-! ## First occurrences -/

section Firsts

variable {α β : Type} [BEq α] [LawfulBEq α] [BEq β] [LawfulBEq β]

theorem nodup_eraseDups (l : List α) : l.eraseDups.Nodup := by
  induction hn : l.length using Nat.strongRecOn generalizing l with
  | ind n ih =>
    cases l with
    | nil => exact List.nodup_nil
    | cons a l =>
      rw [List.eraseDups_cons]
      refine List.nodup_cons.mpr ⟨fun h => ?_, ih _ ?_ _ rfl⟩
      · rw [List.mem_eraseDups, List.mem_filter] at h
        simp at h
      · rw [← hn, List.length_cons]
        exact Nat.lt_succ_of_le (List.length_filter_le ..)

theorem eraseDups_concat (l : List α) (a : α) :
    (l ++ [a]).eraseDups = if a ∈ l then l.eraseDups else l.eraseDups ++ [a] := by
  rw [List.eraseDups_append]
  split
  · next h => simp [List.removeAll, h]
  · next h => simp [List.removeAll, h, List.eraseDups_cons]

theorem eraseDups_of_nodup {l : List α} (h : l.Nodup) : l.eraseDups = l := by
  induction l using List.reverseRecOn with
  | nil => rfl
  | append_singleton l a ih =>
    rw [List.nodup_append] at h
    rw [eraseDups_concat, if_neg fun ha => h.2.2 a ha a List.mem_cons_self rfl, ih h.1]

/-- In another order the same first occurrences are found, in another order. -/
theorem perm_eraseDups {l l' : List α} (h : l.Perm l') : l.eraseDups.Perm l'.eraseDups := by
  rw [List.perm_ext_iff_of_nodup (nodup_eraseDups l) (nodup_eraseDups l')]
  intro a
  rw [List.mem_eraseDups, List.mem_eraseDups, h.mem_iff]

/-- Dropping what fails a test and taking first occurrences can change places. -/
theorem filter_eraseDups (p : α → Bool) (l : List α) :
    l.eraseDups.filter p = (l.filter p).eraseDups := by
  induction l using List.reverseRecOn with
  | nil => rfl
  | append_singleton l a ih =>
    rw [eraseDups_concat, List.filter_append]
    cases hp : p a with
    | true =>
      rw [List.filter_cons_of_pos hp, List.filter_nil, eraseDups_concat, ← ih]
      by_cases ha : a ∈ l
      · rw [if_pos ha, if_pos (List.mem_filter.mpr ⟨ha, hp⟩)]
      · rw [if_neg ha, if_neg fun h => ha (List.mem_filter.mp h).1, List.filter_append,
          List.filter_cons_of_pos hp, List.filter_nil]
    | false =>
      rw [List.filter_cons_of_neg (by simp [hp]), List.filter_nil, List.append_nil, ← ih]
      split
      · rfl
      · rw [List.filter_append, List.filter_cons_of_neg (by simp [hp]), List.filter_nil,
          List.append_nil]

/-- The first images are the first images of first occurrences. -/
theorem eraseDups_map_eraseDups (f : α → β) (l : List α) :
    (l.eraseDups.map f).eraseDups = (l.map f).eraseDups := by
  induction l using List.reverseRecOn with
  | nil => rfl
  | append_singleton l a ih =>
    rw [eraseDups_concat, List.map_append, List.map_singleton, eraseDups_concat, ← ih]
    split
    · next ha => rw [if_pos (List.mem_map_of_mem ha)]
    · next ha =>
      rw [List.map_append, List.map_singleton, eraseDups_concat]
      have hmem : f a ∈ l.eraseDups.map f ↔ f a ∈ l.map f := by simp
      by_cases hfa : f a ∈ l.map f
      · rw [if_pos hfa, if_pos (hmem.mpr hfa)]
      · rw [if_neg hfa, if_neg (hmem.not.mpr hfa)]

/-- Going through first occurrences only, if it makes no difference to come across a thing again. -/
theorem foldlM_eraseDups {σ ε : Type} {f : σ → α → Except ε σ} {start : σ}
    (hf : ∀ (l : List α) (a : α) (s s' : σ), a ∈ l → l.foldlM f start = .ok s → f s a = .ok s' →
      s' = s)
    {l : List α} {s : σ} (h : l.foldlM f start = .ok s) : l.eraseDups.foldlM f start = .ok s := by
  induction l using List.reverseRecOn generalizing s with
  | nil => exact h
  | append_singleton l a ih =>
    simp only [List.foldlM_append, List.foldlM_cons, List.foldlM_nil, bind_pure,
      bind_eq_ok_iff] at h
    obtain ⟨t, ht, h⟩ := h
    rw [eraseDups_concat]
    split
    · next ha => rw [hf l a t s ha ht h, ih ht]
    · simp only [List.foldlM_append, List.foldlM_cons, List.foldlM_nil, bind_pure]
      exact bind_eq_ok_iff.mpr ⟨t, ih ht, h⟩

end Firsts

/-- The images of the first things with each image are the first images. -/
theorem map_eraseDupsBy {α γ : Type} [BEq α] (f : γ → α) (l : List γ) :
    (l.eraseDupsBy fun a b => f a == f b).map f = (l.map f).eraseDups := by
  have hloop (l bs : List γ) : (List.eraseDupsBy.loop (fun a b => f a == f b) l bs).map f =
      List.eraseDupsBy.loop (fun a b => a == b) (l.map f) (bs.map f) := by
    induction l generalizing bs with
    | nil => simp [List.eraseDupsBy.loop]
    | cons a l ih =>
      rw [List.map_cons, List.eraseDupsBy.loop, List.eraseDupsBy.loop, List.any_map]
      cases hany : bs.any ((fun b => f a == b) ∘ f) with
      | true => rw [show bs.any (fun b => f a == f b) = true from hany]; exact ih bs
      | false => rw [show bs.any (fun b => f a == f b) = false from hany]; exact ih (a :: bs)
  exact hloop l []

/-- Of things with distinct keys, one has a given key. -/
theorem filter_eq_singleton {α β : Type} [DecidableEq β] {f : α → β} {l : List α}
    (h : (l.map f).Nodup) {a : α} (ha : a ∈ l) : (l.filter fun b => f b = f a) = [a] := by
  induction l with
  | nil => cases ha
  | cons b l ih =>
    obtain ⟨hb, hl⟩ := List.nodup_cons.mp h
    rcases List.mem_cons.mp ha with rfl | ha
    · rw [List.filter_cons_of_pos (by simp), List.filter_eq_nil_iff.mpr fun c hc => ?_]
      have hca : f c ≠ f a := fun hca => hb (hca ▸ List.mem_map_of_mem hc)
      simpa using hca
    · have hba : f b ≠ f a := fun hba => hb (hba ▸ List.mem_map_of_mem ha)
      rw [List.filter_cons_of_neg (by simpa using hba), ih hl ha]

/-- Of things with distinct keys, as far as they have one, only one has a given key. -/
theorem eq_of_nodup_filterMap {α β : Type} {f : α → Option β} {l : List α}
    (h : (l.filterMap f).Nodup) {a b : α} (ha : a ∈ l) (hb : b ∈ l) {y : β} (hfa : f a = some y)
    (hfb : f b = some y) : a = b := by
  have hpair := List.pairwise_filterMap.mp h
  have : Std.Symm fun a b => ∀ x, f a = some x → ∀ y, f b = some y → x ≠ y :=
    ⟨fun _ _ hab x hx y hy => (hab y hy x hx).symm⟩
  by_contra hne
  exact hpair.forall ha hb hne y hfa y hfb rfl

/-- A list falls into the parts over distinct keys, if it has no others. -/
theorem perm_flatMap_filter {α β : Type} [DecidableEq β] {f : α → β} {ks : List β}
    (hks : ks.Nodup) {l : List α} (h : ∀ a ∈ l, f a ∈ ks) :
    (ks.flatMap fun k => l.filter fun a => f a = k).Perm l := by
  induction ks generalizing l with
  | nil =>
    cases l with
    | nil => exact .refl _
    | cons a l => exact absurd (h a List.mem_cons_self) List.not_mem_nil
  | cons k ks ih =>
    obtain ⟨hk, hks⟩ := List.nodup_cons.mp hks
    have hrest : (ks.flatMap fun k' => l.filter fun a => f a = k') =
        ks.flatMap fun k' => (l.filter fun a => !decide (f a = k)).filter fun a => f a = k' := by
      refine List.flatMap_congr fun k' hk' => ?_
      rw [List.filter_filter]
      refine List.filter_congr fun a _ => ?_
      by_cases ha : f a = k'
      · have : f a ≠ k := fun hak => hk (hak ▸ ha ▸ hk')
        simp [ha, ha ▸ this]
      · simp [ha]
    rw [List.flatMap_cons, hrest]
    refine ((ih hks fun a ha => ?_).append_left _).trans (List.filter_append_perm _ l)
    rw [List.mem_filter] at ha
    exact (List.mem_cons.mp (h a ha.1)).resolve_left (by simpa using ha.2)

/-- With a unit at the end, an associative operation may be taken from either side. -/
theorem foldl_eq_foldr_cons {α : Type} {op : α → α → α} {unit : α}
    (hassoc : ∀ a b c, op (op a b) c = op a (op b c)) (hunit : ∀ a, op a unit = a) (a : α)
    (as : List α) : as.foldl op a = (a :: as).foldr op unit := by
  induction as generalizing a with
  | nil => exact (hunit a).symm
  | cons b as ih => rw [List.foldl_cons, ih, List.foldr_cons, hassoc]; rfl

/-- What things are made of, when joining two of them puts their parts together. -/
theorem foldl_eq_flatMap_cons {α β : Type} {join : α → α → α} {parts : α → List β}
    (hjoin : ∀ a b, parts (join a b) = parts a ++ parts b) (a : α) (as : List α) :
    parts (as.foldl join a) = (a :: as).flatMap parts := by
  induction as generalizing a with
  | nil => simp
  | cons b as ih =>
    rw [List.foldl_cons, ih, List.flatMap_cons, hjoin, List.append_assoc, ← List.flatMap_cons,
      ← List.flatMap_cons]

end QueryPlan
