import Mathlib.Data.List.Nodup
import WasmBinary.Opcode.Basic
import WasmBinary.Text
import WasmBinary.Proofs.Words

/-!
# Mnemonics

The mnemonic tells the opcode, in all four tables together. Only `select` stands for two opcodes, and
only one of them lists types behind it.

* `Opcode.isWord_mnemonic`: a mnemonic is a word.
* `Opcode.eq_of_mnemonic`: opcodes with one mnemonic.
-/
namespace WasmBinary

/-! ## Bytes of a text -/

namespace Text.Utf8

theorem toList_toByteArray (s : String) : s.toByteArray.data.toList = encode s := by
  rw [← String.utf8Encode_toList, encode, List.utf8Encode, List.toList_data_toByteArray]

theorem encodeChar_subset {s : String} {c : Char} (h : c ∈ s.toList) :
    String.utf8EncodeChar c ⊆ s.toByteArray.data.toList := by
  rw [toList_toByteArray]
  exact fun b hb => List.mem_flatMap.mpr ⟨c, h, hb⟩

end Text.Utf8

/-! ## Distinct numbers -/

/-- Whether no number stands twice in a list, nor in a set of numbers. A set is a number with a bit for
each of its members. -/
def distinct : (seen : Nat) → List Nat → Bool
  | _, [] => true
  | seen, k :: ks => !seen.testBit k && distinct (seen ||| 1 <<< k) ks

theorem nodup_of_distinct : ∀ {seen : Nat} {ks : List Nat}, distinct seen ks = true →
    ks.Nodup ∧ ∀ k ∈ ks, seen.testBit k = false
  | seen, [], _ => ⟨.nil, fun _ hk => (nomatch hk)⟩
  | seen, k :: ks, h => by
    rw [distinct, Bool.and_eq_true, Bool.not_eq_true'] at h
    obtain ⟨hfirst, hrest⟩ := h
    obtain ⟨hnodup, hunseen⟩ := nodup_of_distinct hrest
    have hks (l : Nat) (hl : l ∈ ks) : seen.testBit l = false ∧ k ≠ l := by
      have hboth := hunseen l hl
      rw [Nat.testBit_or, Bool.or_eq_false_iff, Nat.testBit_shiftLeft] at hboth
      refine ⟨hboth.1, ?_⟩
      rintro rfl
      simp at hboth
    refine ⟨List.nodup_cons.mpr ⟨fun hk => (hks k hk).2 rfl, hnodup⟩, fun l hl => ?_⟩
    rcases List.mem_cons.mp hl with rfl | hl
    · exact hfirst
    · exact (hks l hl).1

namespace Opcode

/-! ## All rows -/

def allRows : List (Space × Row) :=
  [Space.core, .misc, .simd, .atomic].flatMap fun space => space.rows.map (space, ·)

theorem row_mem_allRows (o : Opcode) : (o.space, o.row) ∈ allRows := by
  have hrow : o.row ∈ o.space.rows := List.mem_of_find?_eq_some (Option.eq_some_of_isSome o.listed)
  refine List.mem_flatMap.mpr ⟨o.space, ?_, List.mem_map.mpr ⟨o.row, hrow, rfl⟩⟩
  cases o.space <;> decide

theorem row_code (o : Opcode) : o.row.code = o.code := by
  have hfound : o.space.rows.find? (·.code == o.code) = some o.row :=
    Option.eq_some_of_isSome o.listed
  have hcode := List.find?_some hfound
  exact eq_of_beq hcode

theorem eq_of_row {o o' : Opcode} (hspace : o.space = o'.space) (hcode : o.row.code = o'.row.code) :
    o = o' := by
  rw [row_code, row_code] at hcode
  obtain ⟨space, code, listed⟩ := o
  obtain ⟨space', code', listed'⟩ := o'
  cases hspace
  cases hcode
  rfl

/-- The bytes of a mnemonic as one number. The factor is chosen such that no two are the same. -/
def key (mnemonic : String) : Nat :=
  mnemonic.toByteArray.data.toList.foldl (fun n b => (n * 5 + b.toNat) % 65536) 0

theorem distinct_keys : distinct 0 ((allRows.filter fun entry =>
    entry.2.shape ≠ .selectTyped).map fun entry => key entry.2.mnemonic) = true := by
  decide +kernel

theorem selectTyped_unique : ∀ entry ∈ allRows, entry.2.shape = .selectTyped →
    entry = (.core, ⟨0x1C, "select", .selectTyped⟩) := by
  decide +kernel

/-- A mnemonic is not empty, and has no byte of a character that ends words. -/
theorem mnemonic_bytes : ∀ entry ∈ allRows, (!entry.2.mnemonic.toByteArray.data.toList.isEmpty &&
    entry.2.mnemonic.toByteArray.data.toList.all
      (fun b => b ≠ 0x20 && b ≠ 0x0A && b ≠ 0x28 && b ≠ 0x29)) = true := by
  decide +kernel

/-! ## Opcodes -/

theorem isWord_mnemonic (o : Opcode) : Text.IsWord o.mnemonic := by
  have hbytes := mnemonic_bytes _ (row_mem_allRows o)
  rw [Bool.and_eq_true, List.all_eq_true] at hbytes
  intro c hc
  have hsubset := Text.Utf8.encodeChar_subset hc
  by_contra hend
  rcases Text.eq_of_not_isWordChar hend with rfl | rfl | rfl | rfl
  · exact absurd (hbytes.2 0x20 (hsubset (by decide))) (by decide)
  · exact absurd (hbytes.2 0x0A (hsubset (by decide))) (by decide)
  · exact absurd (hbytes.2 0x28 (hsubset (by decide))) (by decide)
  · exact absurd (hbytes.2 0x29 (hsubset (by decide))) (by decide)

theorem mnemonic_ne_nil (o : Opcode) : o.mnemonic.toList ≠ [] := by
  intro hnil
  have hbytes := mnemonic_bytes _ (row_mem_allRows o)
  have hempty : o.row.mnemonic = "" := String.toList_inj.mp hnil
  rw [hempty] at hbytes
  revert hbytes
  decide

theorem eq_of_mnemonic_untyped {o o' : Opcode} (h : o.mnemonic = o'.mnemonic)
    (hshape : o.shape ≠ .selectTyped) (hshape' : o'.shape ≠ .selectTyped) : o = o' := by
  have hmem {o : Opcode} (hshape : o.shape ≠ .selectTyped) :
      (o.space, o.row) ∈ allRows.filter fun entry => entry.2.shape ≠ .selectTyped :=
    List.mem_filter.mpr ⟨row_mem_allRows o, decide_eq_true hshape⟩
  have hsame := List.inj_on_of_nodup_map (nodup_of_distinct distinct_keys).1 (hmem hshape)
    (hmem hshape') (congrArg key h)
  exact eq_of_row (congrArg Prod.fst hsame) (congrArg (fun entry => entry.2.code) hsame)

/-- The `select` without types. -/
def select : Opcode := ⟨.core, 0x1B, by decide⟩

theorem mnemonic_of_selectTyped {o : Opcode} (h : o.shape = .selectTyped) :
    o.space = .core ∧ o.row = ⟨0x1C, "select", .selectTyped⟩ := by
  have hrow := selectTyped_unique _ (row_mem_allRows o) h
  exact ⟨congrArg Prod.fst hrow, congrArg Prod.snd hrow⟩

/-- Opcodes with one mnemonic are the same, or they are both a `select`, one with types and one
without. -/
theorem eq_of_mnemonic {o o' : Opcode} (h : o.mnemonic = o'.mnemonic) :
    o = o' ∨ o.shape = .none ∧ o'.shape = .selectTyped ∨
      o.shape = .selectTyped ∧ o'.shape = .none := by
  have huntyped {o o' : Opcode} (h : o.mnemonic = o'.mnemonic) (hshape : o.shape ≠ .selectTyped)
      (hshape' : o'.shape = .selectTyped) : o.shape = .none := by
    have hselect : o.mnemonic = select.mnemonic := by
      rw [h, mnemonic, (mnemonic_of_selectTyped hshape').2]
      rfl
    rw [eq_of_mnemonic_untyped hselect hshape (by decide)]
    rfl
  by_cases hshape : o.shape = .selectTyped <;> by_cases hshape' : o'.shape = .selectTyped
  · obtain ⟨hspace, hrow⟩ := mnemonic_of_selectTyped hshape
    obtain ⟨hspace', hrow'⟩ := mnemonic_of_selectTyped hshape'
    exact .inl (eq_of_row (hspace.trans hspace'.symm) (by rw [hrow, hrow']))
  · exact .inr (.inr ⟨hshape, huntyped h.symm hshape' hshape⟩)
  · exact .inr (.inl ⟨huntyped h hshape hshape', hshape'⟩)
  · exact .inl (eq_of_mnemonic_untyped h hshape hshape')

end Opcode

end WasmBinary
