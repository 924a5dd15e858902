import Mathlib.Tactic.IntervalCases
import PubSweep.Uuid

/-!
The text of an identity reads back as the identity.
-/

namespace PubSweep.Uuid

open Digest

/-! ## Digits -/

theorem digitValue_hexDigit {n : Nat} (h : n < 16) : digitValue (hexDigit n) = some n := by
  interval_cases n <;> rfl

/-- Two digits for each byte give the number that has these bytes. -/
theorem foldlM_hexByte (bytes : List UInt8) (n : Nat) :
    (bytes.flatMap hexByte).foldlM (fun n c => (digitValue c).map (16 * n + ·)) n =
      some (bytes.foldl (fun n b => n * 256 + b.toNat) n) := by
  induction bytes generalizing n with
  | nil => rfl
  | cons b bytes ih =>
      have hb := b.toNat_lt
      have hhigh := digitValue_hexDigit (n := b.toNat / 16) (by omega)
      have hlow := digitValue_hexDigit (n := b.toNat % 16) (by omega)
      have hbyte : 16 * (16 * n + b.toNat / 16) + b.toNat % 16 = n * 256 + b.toNat := by omega
      simp [hexByte, hhigh, hlow, hbyte, ih]

theorem digitValue_isSome_of_mem {bytes : List UInt8} {c : Char}
    (h : c ∈ bytes.flatMap hexByte) : (digitValue c).isSome = true := by
  obtain ⟨b, -, hc⟩ := List.mem_flatMap.1 h
  have hb := b.toNat_lt
  simp only [hexByte, List.mem_cons, List.not_mem_nil, or_false] at hc
  obtain rfl | rfl := hc
  · rw [digitValue_hexDigit (by omega)]
    rfl
  · rw [digitValue_hexDigit (by omega)]
    rfl

/-! ## Bytes -/

/-- The low bytes of a number, the highest first, give the low part of the number. -/
theorem foldl_lowBytes (count n : Nat) :
    ((List.range count).map fun i => UInt8.ofNat (n >>> (8 * (count - 1 - i)))).foldl
      (fun n b => n * 256 + b.toNat) 0 = n % 256 ^ count := by
  induction count generalizing n with
  | zero => simp [Nat.mod_one]
  | succ count ih =>
      -- All bytes but the last one are those of the number without its last byte.
      have hshift : ((List.range count).map fun i => UInt8.ofNat (n >>> (8 * (count - i)))) =
          (List.range count).map fun i => UInt8.ofNat ((n / 256) >>> (8 * (count - 1 - i))) := by
        apply List.map_congr_left
        intro i hi
        have hlt := List.mem_range.1 hi
        have hindex : 8 * (count - i) = 8 + 8 * (count - 1 - i) := by omega
        rw [hindex, Nat.shiftRight_add, Nat.shiftRight_eq_div_pow n 8]
      have hlast : (UInt8.ofNat (n >>> (8 * (count - count)))).toNat = n % 256 := by simp
      rw [Nat.add_sub_cancel, List.range_succ, List.map_append, List.foldl_append, hshift, ih,
        List.map_singleton, List.foldl_cons, List.foldl_nil, hlast, Nat.pow_succ', Nat.mod_mul]
      omega

theorem foldl_bytes (u : Uuid) :
    u.bytes.foldl (fun n b => n * 256 + b.toNat) 0 = u.value.toNat := by
  have hlow := foldl_lowBytes 16 u.value.toNat
  have hlt : u.value.toNat < 256 ^ 16 := u.value.isLt
  rwa [Nat.mod_eq_of_lt hlt] at hlow

/-! ## Groups -/

/-- Digits in groups are found again. -/
theorem ungroup_hyphenate {ns : List Nat} {ds : List Char} (h : ds.length = ns.sum) :
    ungroup ns (hyphenate ns ds) = some ds := by
  fun_induction hyphenate ns ds with
  | case1 ds => simp_all [ungroup]
  | case2 n ds =>
      have htake : ds.take n = ds := List.take_of_length_le (by simp_all)
      simp_all [ungroup]
  | case3 n ns ds hne ih =>
      obtain ⟨m, ms, rfl⟩ := List.exists_cons_of_ne_nil (fun hns => hne hns)
      have hlen : (ds.take n).length = n := by simp_all
      have hrest : (ds.drop n).length = (m :: ms).sum := by simp_all
      have hdrop : ∀ cs, (ds.take n ++ cs).drop n = cs := fun _ => List.drop_left' hlen
      have htake : ∀ cs, (ds.take n ++ cs).take n = ds.take n := fun _ => List.take_left' hlen
      simp [ungroup, hdrop, htake, ih hrest]

/-- The digits of an identity. -/
def digits (u : Uuid) : List Char := u.bytes.flatMap hexByte

theorem length_digits (u : Uuid) : u.digits.length = 32 := rfl

theorem length_hyphenate_digits (u : Uuid) : (hyphenate groups u.digits).length = 36 := rfl

theorem digitsValue_digits (u : Uuid) : digitsValue u.digits = some u.value.toNat := by
  rw [digitsValue, digits, foldlM_hexByte, foldl_bytes]

/-- Nothing stands around the text of an identity: it starts with a digit, and it is too short for
braces. -/
theorem unwrap_hyphenate (u : Uuid) :
    unwrap (hyphenate groups u.digits) = hyphenate groups u.digits := by
  have hlen := u.length_hyphenate_digits
  have hscheme : "urn:uuid:".toList.isPrefixOf (hyphenate groups u.digits) = false := by
    cases hds : u.digits with
    | nil => cases hds
    | cons c cs =>
        have hmem : c ∈ u.digits := hds ▸ List.mem_cons_self
        have hc := digitValue_isSome_of_mem hmem
        have hu : 'u' ≠ c := by
          rintro rfl
          cases hc
        simp [hyphenate, groups, List.isPrefixOf, hu]
  generalize hyphenate groups u.digits = cs at *
  rw [unwrap, hscheme, hlen]
  simp

/-- The text of an identity reads back as the identity. -/
theorem parse?_render (u : Uuid) : parse? u.render = some u := by
  have hgroups : ungroup groups (hyphenate groups u.digits) = some u.digits :=
    ungroup_hyphenate u.length_digits
  simp only [parse?, render, String.toList_ofList]
  rw [← digits, unwrap_hyphenate, length_hyphenate_digits, hgroups]
  simp [digitsValue_digits]

end PubSweep.Uuid
