import Mathlib.Data.List.Basic
import SigningKeys.Field.Basic

/-!
# Finding fields by name

The table of fields is searched by halving.  As it is sorted by name, a field that is passed over
has a smaller or a greater name than the one that is looked for, so the search finds the field of a
name whenever there is one.

## Main results

* `Bytes.order_eq_eq_iff`, `Bytes.order_lt_trans`, `Bytes.order_eq_gt_iff`: the order of byte
  strings is a linear order.
* `Field.search_eq_some_iff`: halving a sorted list finds what is in it.
* `Field.lookup_eq_some_iff`: **a look-up finds a field exactly by its name.**
-/

namespace SigningKeys

/-! ### The order of byte strings -/

namespace Bytes

theorem order_eq_eq_iff {as bs : Bytes} : order as bs = .eq ↔ as = bs := by
  induction as generalizing bs with
  | nil => cases bs <;> simp
  | cons a as ih =>
    cases bs with
    | nil => simp
    | cons b bs =>
      rw [order_cons_cons, List.cons.injEq]
      by_cases hlt : a < b
      · simp [hlt, UInt8.ne_of_lt hlt]
      by_cases hgt : b < a
      · simp [hlt, hgt, (UInt8.ne_of_lt hgt).symm]
      · have hab : a = b := UInt8.le_antisymm (UInt8.not_lt.mp hgt) (UInt8.not_lt.mp hlt)
        rw [if_neg hlt, if_neg hgt, ih]
        simp [hab]

/-- A string is greater than another if the other is smaller. -/
theorem order_eq_gt_iff {as bs : Bytes} : order as bs = .gt ↔ order bs as = .lt := by
  induction as generalizing bs with
  | nil => cases bs <;> simp
  | cons a as ih =>
    cases bs with
    | nil => simp
    | cons b bs =>
      rw [order_cons_cons, order_cons_cons]
      by_cases hlt : a < b
      · simp [hlt, UInt8.lt_asymm hlt]
      by_cases hgt : b < a
      · simp [hlt, hgt]
      · rw [if_neg hlt, if_neg hgt, if_neg hgt, if_neg hlt, ih]

theorem order_lt_trans {as bs cs : Bytes} (h₁ : order as bs = .lt) (h₂ : order bs cs = .lt) :
    order as cs = .lt := by
  induction as generalizing bs cs with
  | nil =>
    cases cs with
    | nil => cases bs <;> simp at h₂
    | cons c cs => rfl
  | cons a as ih =>
    cases bs with
    | nil => simp at h₁
    | cons b bs =>
      cases cs with
      | nil => simp at h₂
      | cons c cs =>
        rw [order_cons_cons] at h₁ h₂ ⊢
        simp only [UInt8.lt_iff_toNat_lt] at h₁ h₂ ⊢
        -- the first bytes that differ decide, or the rests do
        split at h₁ <;> split at h₂
        · rw [if_pos (by omega)]
        · split at h₂
          · cases h₂
          · rw [if_pos (by omega)]
        · split at h₁
          · cases h₁
          · rw [if_pos (by omega)]
        · split at h₁
          · cases h₁
          split at h₂
          · cases h₂
          · rw [if_neg (by omega), if_neg (by omega)]
            exact ih h₁ h₂

end Bytes

/-! ### Halving -/

namespace Field

theorem nameBytes_injective : ∀ f g : Field, f.nameBytes = g.nameBytes → f = g := by
  intro f g
  cases f <;> cases g <;> decide

/-- Halving a list that is sorted by name finds the field of a name that is in it. -/
theorem search_eq_some_iff {name : Bytes} {fields : List Field}
    (h : fields.Pairwise fun f g => Bytes.order f.nameBytes g.nameBytes = .lt) {f : Field} :
    search name fields = some f ↔ f ∈ fields ∧ f.nameBytes = name := by
  fun_induction search name fields with
  | case1 fields hdrop =>
    have hlen : fields.length = 0 := by
      have := congrArg List.length hdrop
      rw [List.length_drop, List.length_nil] at this
      omega
    simp [List.length_eq_zero_iff.mp hlen]
  | case2 fields g later hdrop horder =>
    have hg : g.nameBytes = name := Bytes.order_eq_eq_iff.mp horder
    have hmem : g ∈ fields := List.mem_of_mem_drop (hdrop ▸ List.mem_cons_self)
    constructor
    · rintro ⟨⟩
      exact ⟨hmem, hg⟩
    · rintro ⟨-, hf⟩
      rw [nameBytes_injective g f (hg.trans hf.symm)]
  | case3 fields g later hdrop horder ih =>
    have hsplit : fields = fields.take (fields.length / 2) ++ g :: later := by
      rw [← hdrop, List.take_append_drop]
    rw [hsplit, List.pairwise_append, List.pairwise_cons] at h
    obtain ⟨-, ⟨-, hlater⟩, hfirst⟩ := h
    rw [ih hlater]
    apply and_congr_left
    intro hf
    constructor
    · intro hmem
      rw [hsplit]
      exact List.mem_append_right _ (List.mem_cons_of_mem _ hmem)
    · -- the fields up to the middle have smaller names
      intro hmem
      subst hf
      rw [hsplit, List.mem_append, List.mem_cons] at hmem
      rcases hmem with hmem | rfl | hmem
      · have hlt := Bytes.order_lt_trans (hfirst f hmem g List.mem_cons_self) horder
        rw [Bytes.order_eq_eq_iff.mpr rfl] at hlt
        cases hlt
      · rw [Bytes.order_eq_eq_iff.mpr rfl] at horder
        cases horder
      · exact hmem
  | case4 fields g later hdrop horder ih =>
    have hsplit : fields = fields.take (fields.length / 2) ++ g :: later := by
      rw [← hdrop, List.take_append_drop]
    have hsorted := h
    rw [hsplit, List.pairwise_append, List.pairwise_cons] at hsorted
    obtain ⟨hfirst, ⟨hmiddle, -⟩, -⟩ := hsorted
    rw [ih hfirst]
    apply and_congr_left
    intro hf
    refine ⟨List.mem_of_mem_take, ?_⟩
    -- the fields from the middle on have greater names
    intro hmem
    subst hf
    rw [hsplit, List.mem_append, List.mem_cons] at hmem
    have hlt := Bytes.order_eq_gt_iff.mp horder
    rcases hmem with hmem | rfl | hmem
    · exact hmem
    · rw [Bytes.order_eq_eq_iff.mpr rfl] at hlt
      cases hlt
    · have := Bytes.order_lt_trans hlt (hmiddle f hmem)
      rw [Bytes.order_eq_eq_iff.mpr rfl] at this
      cases this

/-- A look-up finds a field exactly by its name. -/
theorem lookup_eq_some_iff {name : Bytes} {f : Field} :
    lookup name = some f ↔ f.nameBytes = name := by
  rw [lookup, search_eq_some_iff pairwise_table, and_iff_right (mem_table f)]

@[simp] theorem lookup_nameBytes (f : Field) : lookup f.nameBytes = some f :=
  lookup_eq_some_iff.mpr rfl

end Field

end SigningKeys
