import Mathlib.Data.Nat.Digits.Defs
import HomeScenes.Uuid

/-!
# Identifiers read back from their text

The text of an identifier has 32 digits and four hyphens. Taking the hyphens out gives
the digits again, and the digits give the number.
-/

namespace HomeScenes.Uuid

theorem hexValue?_digitChar : ∀ d < 16, hexValue? d.digitChar = some d := by
  decide

/-- One step of reading a row of hexadecimal digits. -/
def addHexDigit? (n : Nat) (c : Char) : Option Nat :=
  (hexValue? c).map (16 * n + ·)

theorem foldlM_toDigits (n : Nat) : (Nat.toDigits 16 n).foldlM addHexDigit? 0 = some n := by
  induction n using Nat.strongRecOn with
  | ind n ih =>
    rw [Nat.toDigits_eq_if (by decide)]
    split
    · rename_i small
      simp [addHexDigit?, hexValue?_digitChar n small]
    · have front := ih (n / 16) (by omega)
      have last := hexValue?_digitChar (n % 16) (by omega)
      simp only [List.foldlM_append, front, List.foldlM_cons, List.foldlM_nil, addHexDigit?, last]
      simp only [Option.bind_eq_bind, Option.bind_some, Option.map_some, Option.pure_def,
        Option.some.injEq]
      omega

theorem foldlM_zeros (k : Nat) : (List.replicate k '0').foldlM addHexDigit? 0 = some 0 := by
  induction k with
  | zero => rfl
  | succ k ih =>
    have zero : addHexDigit? 0 '0' = some 0 := by decide
    rw [List.replicate_succ, List.foldlM_cons, zero]
    exact ih

theorem length_hexDigits (u : Uuid) : u.hexDigits.length = 32 := by
  have bound : u.toNat < 16 ^ 32 := u.value.isLt
  have short : (Nat.toDigits 16 u.toNat).length ≤ 32 :=
    (Nat.length_toDigits_le_iff (by decide) (by decide)).2 bound
  simp only [hexDigits, List.length_append, List.length_replicate]
  omega

theorem ofHexDigits?_hexDigits (u : Uuid) : ofHexDigits? u.hexDigits = some u := by
  have number : u.hexDigits.foldlM addHexDigit? 0 = some u.toNat := by
    simp only [hexDigits, List.foldlM_append, foldlM_zeros]
    exact foldlM_toDigits u.toNat
  have same : ofNat u.toNat = u := by simp [ofNat, toNat]
  rw [ofHexDigits?, if_pos (length_hexDigits u)]
  change (u.hexDigits.foldlM addHexDigit? 0).map ofNat = some u
  rw [number, Option.map_some, same]

/-- Hyphens between groups that the characters fill are found again. -/
theorem unhyphenate?_hyphenate {ns : List Nat} {cs : List Char} (h : ns.sum ≤ cs.length) :
    unhyphenate? ns (hyphenate ns cs) = some cs := by
  induction ns generalizing cs with
  | nil => rfl
  | cons n ns ih =>
    cases ns with
    | nil => rfl
    | cons m ns =>
      have first : (cs.take n).length = n := by
        simp only [List.sum_cons] at h
        rw [List.length_take]
        omega
      have tail : unhyphenate? (m :: ns) (hyphenate (m :: ns) (cs.drop n)) = some (cs.drop n) :=
        ih (by simp only [List.sum_cons, List.length_drop] at h ⊢; omega)
      simp only [hyphenate, unhyphenate?]
      rw [List.drop_left' first, List.take_left' first]
      simp only [tail, Option.map_some, List.take_append_drop]

theorem length_hyphenate {ns : List Nat} {cs : List Char} (h : ns.sum ≤ cs.length) :
    (hyphenate ns cs).length = cs.length + (ns.length - 1) := by
  induction ns generalizing cs with
  | nil => rfl
  | cons n ns ih =>
    cases ns with
    | nil => rfl
    | cons m ns =>
      have tail : (hyphenate (m :: ns) (cs.drop n)).length =
          (cs.drop n).length + ((m :: ns).length - 1) :=
        ih (by simp only [List.sum_cons, List.length_drop] at h ⊢; omega)
      simp only [List.sum_cons] at h
      simp only [hyphenate, List.length_append, List.length_take, List.length_cons, tail,
        List.length_drop]
      omega

theorem ofText?_text (u : Uuid) : ofText? u.text = some u := by
  have fits : groups.sum ≤ u.hexDigits.length := (length_hexDigits u).ge
  have size : (hyphenate groups u.hexDigits).length = 36 := by
    rw [length_hyphenate fits, length_hexDigits]
    rfl
  rw [ofText?, text, String.toList_ofList, ofChars?, size]
  simp only [ofHyphenated?, if_pos size, unhyphenate?_hyphenate fits, Option.bind_some,
    ofHexDigits?_hexDigits]

end HomeScenes.Uuid
