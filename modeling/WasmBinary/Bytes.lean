/-!
# Byte strings

A byte string is a list of octets. Numbers of fixed width are stored least significant byte
first: `littleEndian` writes one, `ofLittleEndian` reads it back.
-/
namespace WasmBinary

abbrev Bytes := List UInt8

namespace Bytes

/-- The low `width` bytes of `n`, least significant first. -/
def littleEndian : Nat → Nat → Bytes
  | 0, _ => []
  | width + 1, n => UInt8.ofNat n :: littleEndian width (n / 256)

/-- The number whose bytes these are, least significant first. -/
def ofLittleEndian : Bytes → Nat
  | [] => 0
  | b :: rest => b.toNat + 256 * ofLittleEndian rest

@[simp] theorem length_littleEndian (width n : Nat) : (littleEndian width n).length = width := by
  induction width generalizing n with
  | zero => rfl
  | succ width ih => simp [littleEndian, ih]

theorem ofLittleEndian_littleEndian (width n : Nat) (h : n < 1 <<< (8 * width)) :
    ofLittleEndian (littleEndian width n) = n := by
  induction width generalizing n with
  | zero => simp at h; simp [littleEndian, ofLittleEndian, h]
  | succ width ih =>
    have : n / 256 < 1 <<< (8 * width) := by
      rw [Nat.shiftLeft_eq, Nat.mul_add, Nat.pow_add] at h
      rw [Nat.shiftLeft_eq]
      exact Nat.div_lt_of_lt_mul (by omega)
    rw [littleEndian, ofLittleEndian, ih _ this]
    simp; omega

theorem littleEndian_ofLittleEndian (bytes : Bytes) :
    littleEndian bytes.length (ofLittleEndian bytes) = bytes := by
  induction bytes with
  | nil => rfl
  | cons b rest ih =>
    have hb : UInt8.ofNat (b.toNat + 256 * ofLittleEndian rest) = b := by
      rw [← UInt8.toNat_inj, UInt8.toNat_ofNat']
      have := b.toNat_lt
      omega
    have hrest : (b.toNat + 256 * ofLittleEndian rest) / 256 = ofLittleEndian rest := by
      have := b.toNat_lt
      omega
    rw [List.length_cons, ofLittleEndian, littleEndian, hb, hrest, ih]

theorem ofLittleEndian_lt (bytes : Bytes) : ofLittleEndian bytes < 1 <<< (8 * bytes.length) := by
  induction bytes with
  | nil => simp [ofLittleEndian]
  | cons b rest ih =>
    have := b.toNat_lt
    rw [Nat.shiftLeft_eq] at ih
    rw [ofLittleEndian, List.length_cons, Nat.shiftLeft_eq, Nat.mul_add, Nat.pow_add]
    omega

/-- The bytes from `start` up to `stop`; none if they do not all exist. -/
def slice? (bytes : Bytes) (start stop : Nat) : Option Bytes :=
  if start ≤ stop ∧ stop ≤ bytes.length then some ((bytes.drop start).take (stop - start)) else none

theorem slice?_eq_some_iff {bytes bs : Bytes} {start stop : Nat} :
    bytes.slice? start stop = some bs ↔ ∃ front back, bytes = front ++ (bs ++ back) ∧
      front.length = start ∧ start + bs.length = stop := by
  unfold slice?
  constructor
  · intro h
    split at h
    · cases h
      refine ⟨bytes.take start, bytes.drop stop, ?_, ?_, ?_⟩
      · have hstop : bytes.drop stop = (bytes.drop start).drop (stop - start) := by
          rw [List.drop_drop]
          congr 1
          omega
        rw [hstop, List.take_append_drop, List.take_append_drop]
      · rw [List.length_take]
        omega
      · rw [List.length_take, List.length_drop]
        omega
    · cases h
  · rintro ⟨front, back, rfl, rfl, rfl⟩
    rw [if_pos (by simp only [List.length_append]; omega)]
    simp

end Bytes

end WasmBinary
