import Mathlib.Data.Nat.Notation
import SigningKeys.Text.Base64

/-!
# Base64 text and the bytes that it stands for

Reading undoes writing, and only what would be written is read.  Four symbols stand for three bytes,
and the last four of them for one, two or three; the number of pads and the bits that belong to no
byte leave no choice.

## Main results

* `Base64.value_eq_some_iff`: a symbol has the value that it is written for.
* `Base64.single_eq_some_iff`, `Base64.pair_eq_some_iff`, `Base64.triple_eq_some_iff`: what one,
  two and three bytes are read from.
* `Base64.decode_eq_some_iff`: **a text is read as exactly those bytes that are written as it.**
* `Base64.visible_of_mem_encode`: no text has a blank or a colon in it.
-/

namespace SigningKeys

open Byte

namespace Base64

/-! ### Symbols -/

/-- A symbol has the value that it is written for, and nothing else has a value. -/
theorem value_eq_some_iff {b : UInt8} {n : ℕ} : value b = some n ↔ n < 64 ∧ b = symbol n := by
  constructor
  · intro h
    simp only [value, UInt8.le_iff_toNat_le, UInt8.reduceToNat] at h
    split at h
    · cases h
      have hlt : b.toNat - 65 < 26 := by omega
      have hcode : 65 + (b.toNat - 65) = b.toNat := by omega
      rw [symbol, if_pos hlt, hcode, UInt8.ofNat_toNat]
      exact ⟨by omega, rfl⟩
    split at h
    · cases h
      have hge : ¬ b.toNat - 71 < 26 := by omega
      have hlt : b.toNat - 71 < 52 := by omega
      have hcode : 71 + (b.toNat - 71) = b.toNat := by omega
      rw [symbol, if_neg hge, if_pos hlt, hcode, UInt8.ofNat_toNat]
      exact ⟨by omega, rfl⟩
    split at h
    · cases h
      have hge : ¬ b.toNat + 4 < 26 := by omega
      have hge' : ¬ b.toNat + 4 < 52 := by omega
      have hlt : b.toNat + 4 < 62 := by omega
      rw [symbol, if_neg hge, if_neg hge', if_pos hlt, Nat.add_sub_cancel, UInt8.ofNat_toNat]
      exact ⟨by omega, rfl⟩
    split at h
    · next hplus =>
      cases h
      exact ⟨by decide, hplus⟩
    split at h
    · next hslash =>
      cases h
      exact ⟨by decide, hslash⟩
    · cases h
  · rintro ⟨hn, rfl⟩
    exact value_symbol hn

/-- Symbols are visible, and none of them is a colon. -/
theorem visible_symbol {n : ℕ} (h : n < 64) : isGraphic (symbol n) = true ∧ symbol n ≠ colon := by
  have all : ∀ n : Fin 64, isGraphic (symbol n) = true ∧ symbol n ≠ colon := by decide
  exact all ⟨n, h⟩

/-! ### The bytes of a few symbols -/

theorem ofNat_eq_of_toNat {n : ℕ} {b : UInt8} (h : n = b.toNat) : UInt8.ofNat n = b := by
  rw [h, UInt8.ofNat_toNat]

theorem single_eq_some_iff {w x : UInt8} {bs : Bytes} :
    single w x = some bs ↔ ∃ a, bs = [a] ∧ encode [a] = [w, x, pad, pad] := by
  constructor
  · intro h
    unfold single at h
    split at h
    · next v u hv hu =>
      obtain ⟨hvlt, rfl⟩ := value_eq_some_iff.mp hv
      obtain ⟨hult, rfl⟩ := value_eq_some_iff.mp hu
      split at h
      · next hbits =>
        cases h
        have hbyte := UInt8.toNat_ofNat_of_lt' (show v * 4 + u / 16 < 2 ^ 8 by omega)
        have hfirst : (v * 4 + u / 16) / 4 = v := by omega
        have hsecond : (v * 4 + u / 16) % 4 * 16 = u := by omega
        refine ⟨_, rfl, ?_⟩
        rw [encode, hbyte, hfirst, hsecond]
      · cases h
    · cases h
  · rintro ⟨a, rfl, h⟩
    have ha := a.toNat_lt
    rw [encode, List.cons.injEq, List.cons.injEq] at h
    obtain ⟨rfl, rfl, -⟩ := h
    have hbits : a.toNat % 4 * 16 % 16 = 0 := by omega
    unfold single
    rw [value_symbol (by omega), value_symbol (by omega)]
    simp only [hbits, if_true]
    rw [ofNat_eq_of_toNat (b := a) (by omega)]

theorem pair_eq_some_iff {w x y : UInt8} {bs : Bytes} :
    pair w x y = some bs ↔ ∃ a b, bs = [a, b] ∧ encode [a, b] = [w, x, y, pad] := by
  constructor
  · intro h
    unfold pair at h
    split at h
    · next v u t hv hu ht =>
      obtain ⟨hvlt, rfl⟩ := value_eq_some_iff.mp hv
      obtain ⟨hult, rfl⟩ := value_eq_some_iff.mp hu
      obtain ⟨htlt, rfl⟩ := value_eq_some_iff.mp ht
      split at h
      · next hbits =>
        cases h
        have hbyte := UInt8.toNat_ofNat_of_lt' (show v * 4 + u / 16 < 2 ^ 8 by omega)
        have hbyte' := UInt8.toNat_ofNat_of_lt' (show u % 16 * 16 + t / 4 < 2 ^ 8 by omega)
        have hfirst : (v * 4 + u / 16) / 4 = v := by omega
        have hsecond : (v * 4 + u / 16) % 4 * 16 + (u % 16 * 16 + t / 4) / 16 = u := by omega
        have hthird : (u % 16 * 16 + t / 4) % 16 * 4 = t := by omega
        refine ⟨_, _, rfl, ?_⟩
        rw [encode, hbyte, hbyte', hfirst, hsecond, hthird]
      · cases h
    · cases h
  · rintro ⟨a, b, rfl, h⟩
    have ha := a.toNat_lt
    have hb := b.toNat_lt
    rw [encode, List.cons.injEq, List.cons.injEq, List.cons.injEq] at h
    obtain ⟨rfl, rfl, rfl, -⟩ := h
    have hbits : b.toNat % 16 * 4 % 4 = 0 := by omega
    unfold pair
    rw [value_symbol (by omega), value_symbol (by omega), value_symbol (by omega)]
    simp only [hbits, if_true]
    rw [ofNat_eq_of_toNat (b := a) (by omega), ofNat_eq_of_toNat (b := b) (by omega)]

theorem triple_eq_some_iff {w x y z : UInt8} {bs : Bytes} :
    triple w x y z = some bs ↔ ∃ a b c, bs = [a, b, c] ∧ encode [a, b, c] = [w, x, y, z] := by
  constructor
  · intro h
    unfold triple at h
    split at h
    · next v u t s hv hu ht hs =>
      obtain ⟨hvlt, rfl⟩ := value_eq_some_iff.mp hv
      obtain ⟨hult, rfl⟩ := value_eq_some_iff.mp hu
      obtain ⟨htlt, rfl⟩ := value_eq_some_iff.mp ht
      obtain ⟨hslt, rfl⟩ := value_eq_some_iff.mp hs
      cases h
      have hbyte := UInt8.toNat_ofNat_of_lt' (show v * 4 + u / 16 < 2 ^ 8 by omega)
      have hbyte' := UInt8.toNat_ofNat_of_lt' (show u % 16 * 16 + t / 4 < 2 ^ 8 by omega)
      have hbyte'' := UInt8.toNat_ofNat_of_lt' (show t % 4 * 64 + s < 2 ^ 8 by omega)
      have hfirst : (v * 4 + u / 16) / 4 = v := by omega
      have hsecond : (v * 4 + u / 16) % 4 * 16 + (u % 16 * 16 + t / 4) / 16 = u := by omega
      have hthird : (u % 16 * 16 + t / 4) % 16 * 4 + (t % 4 * 64 + s) / 64 = t := by omega
      have hfourth : (t % 4 * 64 + s) % 64 = s := by omega
      refine ⟨_, _, _, rfl, ?_⟩
      rw [encode, hbyte, hbyte', hbyte'', hfirst, hsecond, hthird, hfourth, encode_nil]
    · cases h
  · rintro ⟨a, b, c, rfl, h⟩
    have ha := a.toNat_lt
    have hb := b.toNat_lt
    have hc := c.toNat_lt
    rw [encode, List.cons.injEq, List.cons.injEq, List.cons.injEq, List.cons.injEq] at h
    obtain ⟨rfl, rfl, rfl, rfl, -⟩ := h
    unfold triple
    rw [value_symbol (by omega), value_symbol (by omega), value_symbol (by omega),
      value_symbol (by omega)]
    simp only
    rw [ofNat_eq_of_toNat (b := a) (by omega), ofNat_eq_of_toNat (b := b) (by omega),
      ofNat_eq_of_toNat (b := c) (by omega)]

/-! ### Texts -/

theorem encode_append_three (a b c : UInt8) (rest : Bytes) :
    encode (a :: b :: c :: rest) = encode [a, b, c] ++ encode rest := rfl

theorem encode_ne_nil {bs : Bytes} (h : bs ≠ []) : encode bs ≠ [] := by
  fun_cases encode bs with
  | case1 => exact absurd rfl h
  | case2 a => exact List.cons_ne_nil _ _
  | case3 a b => exact List.cons_ne_nil _ _
  | case4 a b c rest => exact List.cons_ne_nil _ _

/-- Four symbols are read as the bytes that are written as them. -/
theorem closing_eq_some_iff {w x y z : UInt8} {bs : Bytes} :
    closing w x y z = some bs ↔ encode bs = [w, x, y, z] := by
  constructor
  · intro h
    unfold closing at h
    split at h
    · next hz =>
      split at h
      · next hy =>
        obtain ⟨a, rfl, htext⟩ := single_eq_some_iff.mp h
        rw [hz, hy, htext]
      · obtain ⟨a, b, rfl, htext⟩ := pair_eq_some_iff.mp h
        rw [hz, htext]
    · obtain ⟨a, b, c, rfl, htext⟩ := triple_eq_some_iff.mp h
      exact htext
  · intro h
    match bs with
    | [] => cases h
    | [a] =>
      have htext := h
      rw [encode] at h
      cases h
      rw [closing, if_pos rfl, if_pos rfl]
      exact single_eq_some_iff.mpr ⟨a, rfl, htext⟩
    | [a, b] =>
      have htext := h
      rw [encode] at h
      cases h
      rw [closing, if_pos rfl, if_neg (symbol_ne_pad (by omega))]
      exact pair_eq_some_iff.mpr ⟨a, b, rfl, htext⟩
    | [a, b, c] =>
      have htext := h
      rw [encode] at h
      cases h
      rw [closing, if_neg (symbol_ne_pad (by omega))]
      exact triple_eq_some_iff.mpr ⟨a, b, c, rfl, htext⟩
    | a :: b :: c :: d :: rest =>
      -- a fourth byte needs further symbols
      have hmore := encode_ne_nil (List.cons_ne_nil d rest)
      rw [encode] at h
      simp only [List.cons.injEq] at h
      exact absurd h.2.2.2.2 hmore

/-- Symbols for three bytes are read as them, whatever comes behind. -/
theorem decode_of_triple {w x y z : UInt8} {bs : Bytes} (h : triple w x y z = some bs)
    (rest : Bytes) : decode (w :: x :: y :: z :: rest) = (decode rest).map (bs ++ ·) := by
  cases rest with
  | nil =>
    obtain ⟨a, b, c, rfl, htext⟩ := triple_eq_some_iff.mp h
    have hclosing : decode [w, x, y, z] = closing w x y z := rfl
    rw [hclosing, closing_eq_some_iff.mpr htext]
    rfl
  | cons v rest =>
    rw [decode, h]
    · cases decode (v :: rest) <;> rfl
    · exact List.cons_ne_nil v rest

/-- What is written reads back. -/
theorem decode_encode (bs : Bytes) : decode (encode bs) = some bs := by
  fun_induction encode bs with
  | case1 => rfl
  | case2 a => exact closing_eq_some_iff.mpr rfl
  | case3 a b => exact closing_eq_some_iff.mpr rfl
  | case4 a b c rest ih =>
    rw [decode_of_triple (triple_eq_some_iff.mpr ⟨a, b, c, rfl, rfl⟩), ih]
    rfl

/-- Only what is written is read. -/
theorem encode_of_decode {text bs : Bytes} (h : decode text = some bs) : encode bs = text := by
  fun_induction decode text generalizing bs with
  | case1 =>
    cases h
    rfl
  | case2 w x y z => exact closing_eq_some_iff.mp h
  | case3 w x y z rest _ front back hback hfront ih =>
    cases h
    obtain ⟨a, b, c, rfl, htext⟩ := triple_eq_some_iff.mp hfront
    show encode (a :: b :: c :: back) = _
    rw [encode_append_three, htext, ih hback]
    rfl
  | case4 => cases h
  | case5 => cases h

/-- A text is read as exactly those bytes that are written as it. -/
theorem decode_eq_some_iff {text bs : Bytes} : decode text = some bs ↔ encode bs = text :=
  ⟨encode_of_decode, fun h => h ▸ decode_encode bs⟩

/-! ### Bytes of a text -/

/-- Every byte of a text is visible, and none of them is a colon. -/
theorem visible_of_mem_encode {bs : Bytes} {b : UInt8} (hb : b ∈ encode bs) :
    isGraphic b = true ∧ b ≠ colon := by
  have hpad : isGraphic pad = true ∧ pad ≠ colon := by decide
  fun_induction encode bs with
  | case1 => cases hb
  | case2 a =>
    have ha := a.toNat_lt
    simp only [List.mem_cons, List.not_mem_nil, or_false] at hb
    rcases hb with rfl | rfl | rfl | rfl
    · exact visible_symbol (by omega)
    · exact visible_symbol (by omega)
    · exact hpad
    · exact hpad
  | case3 a b' =>
    have ha := a.toNat_lt
    have hb' := b'.toNat_lt
    simp only [List.mem_cons, List.not_mem_nil, or_false] at hb
    rcases hb with rfl | rfl | rfl | rfl
    · exact visible_symbol (by omega)
    · exact visible_symbol (by omega)
    · exact visible_symbol (by omega)
    · exact hpad
  | case4 a b' c rest ih =>
    have ha := a.toNat_lt
    have hb' := b'.toNat_lt
    have hc := c.toNat_lt
    simp only [List.mem_cons] at hb
    rcases hb with rfl | rfl | rfl | rfl | hb
    · exact visible_symbol (by omega)
    · exact visible_symbol (by omega)
    · exact visible_symbol (by omega)
    · exact visible_symbol (by omega)
    · exact ih hb

theorem colon_not_mem_encode (bs : Bytes) : colon ∉ encode bs :=
  fun hmem => (visible_of_mem_encode hmem).2 rfl

end Base64

end SigningKeys
