import Mathlib.Data.List.Perm.Subperm
import WasmBinary.Proofs.CallSites
import WasmBinary.Proofs.NameSection

/-!
# What reading takes

A count is a promise of elements, and no element is free: each takes a byte at least. So a count that
was honoured is paid for by the bytes behind it, and one that they cannot pay for is an error, after no
more elements than there are bytes.

* `Decoder.Delimited.advances`: a reader that tells where its values end, and fails without input, takes
  a byte.
* `Decoder.ReadsElement.advances`: the readers of elements, one by one.
* `Decoder.ahead_of_elementsFrom`, `Decoder.unpaid_elementsFrom`: from one element to all of a vector.
* `Decoder.PaysForCount`: what this means for a vector.
* `Expr.ahead_of_decode`: an expression has more bytes than instructions, nested ones included.
-/
namespace WasmBinary

open Decoder (Recognizes Delimited bind_eq_ok bind_eq_error bind_of_ok mapError_eq_ok mapError_eq_error)
open Leb128 (delimited_u32)

/-! ## Cursors -/

namespace Cursor

/-- The second cursor is in the same input, `n` bytes further on at least. -/
def Ahead (n : Nat) (c c' : Cursor) : Prop :=
  ∃ taken, c.rest = taken ++ c'.rest ∧ c'.position = c.position + taken.length ∧ n ≤ taken.length

variable {n k : Nat} {c c' c'' : Cursor}

theorem Ahead.refl (c : Cursor) : Ahead 0 c c := ⟨[], rfl, rfl, Nat.le_refl 0⟩

theorem Ahead.trans (h : Ahead n c c') (h' : Ahead k c' c'') : Ahead (n + k) c c'' := by
  obtain ⟨taken, hrest, hposition, hn⟩ := h
  obtain ⟨taken', hrest', hposition', hk⟩ := h'
  refine ⟨taken ++ taken', ?_, ?_, ?_⟩
  · rw [hrest, hrest', List.append_assoc]
  · rw [hposition', hposition, List.length_append, Nat.add_assoc]
  · rw [List.length_append]
    exact Nat.add_le_add hn hk

theorem Ahead.length_le (h : Ahead n c c') : n + c'.rest.length ≤ c.rest.length := by
  obtain ⟨taken, hrest, -, hn⟩ := h
  rw [hrest, List.length_append]
  omega

end Cursor

open Cursor (Ahead)

namespace Decoder

variable {ε α σ : Type} {d : Decoder ε α}

/-- What a reader took stands in front of where it stopped. -/
theorem Recognizes.ahead {F : Format α} (h : Recognizes d F) {n : Nat} {c c' : Cursor} {a : α}
    (hd : d c = .ok a c') (hF : ∀ bs, F c.position bs a → n ≤ bs.length) : Ahead n c c' := by
  obtain ⟨bs, hrest, hposition, hform⟩ := h.consumed hd
  exact ⟨bs, hrest, hposition, hF bs hform⟩

/-! ## Readers that take a byte -/

/-- Whenever it succeeds, the reader takes a byte at least. -/
def Advances (d : Decoder ε α) : Prop := ∀ c a c', d c = .ok a c' → Ahead 1 c c'

theorem Delimited.advances (h : Delimited d) (hnone : ∀ p, ∃ e c, d ⟨p, []⟩ = .error e c) :
    Advances d := by
  obtain ⟨F, hF⟩ := h
  intro c a c' hd
  refine hF.ahead hd fun bs hbs => Nat.one_le_iff_ne_zero.mpr fun hempty => ?_
  -- A value without bytes could be read where there are none.
  obtain rfl := List.length_eq_zero_iff.mp hempty
  obtain ⟨e, c'', hfails⟩ := hnone c.position
  have hread := hF.read hbs []
  rw [List.append_nil, hfails] at hread
  cases hread

/-- The readers of the elements of vectors, but that of runs of locals, which has to know how many
locals there are already. -/
inductive ReadsElement : {ε α : Type} → Decoder ε α → Prop
  | type : ReadsElement FuncType.decode
  | valueType : ReadsElement ValueType.markers.decode
  | importing : ReadsElement Import.decode
  | index (space : IndexSpace) : ReadsElement space.decode
  | table : ReadsElement TableType.decode
  | memory : ReadsElement Limits.decodeMemory
  | global : ReadsElement Global.decode
  | exporting : ReadsElement Export.decode
  | element : ReadsElement Element.decode
  | expression : ReadsElement Expr.decode
  | code : ReadsElement Code.decodePlace
  | data : ReadsElement DataSegment.decode
  | name : ReadsElement Names.entry
  | localNames : ReadsElement Names.localEntries
  | branchTarget : ReadsElement Leb128.u32

theorem ReadsElement.advances (h : ReadsElement d) : Advances d := by
  cases h with
  | type => exact FuncType.delimited_decode.advances fun _ => ⟨_, _, rfl⟩
  | valueType => exact (MarkerTable.delimited_decode _).advances fun _ => ⟨_, _, rfl⟩
  | importing => exact Import.delimited_decode.advances fun _ => ⟨_, _, rfl⟩
  | index space => exact (IndexSpace.delimited_decode space).advances fun _ => ⟨_, _, rfl⟩
  | table => exact TableType.delimited_decode.advances fun _ => ⟨_, _, rfl⟩
  | memory => exact Limits.delimited_decodeMemory.advances fun _ => ⟨_, _, rfl⟩
  | global => exact Delimited.advances ⟨_, Global.recognizes_decode⟩ fun _ => ⟨_, _, rfl⟩
  | exporting => exact Export.delimited_decode.advances fun _ => ⟨_, _, rfl⟩
  | element => exact Element.delimited_decode.advances fun _ => ⟨_, _, rfl⟩
  | expression => exact Expr.delimited_decode.advances fun _ => ⟨_, _, rfl⟩
  | code => exact Delimited.advances ⟨_, Code.recognizes_decodePlace⟩ fun _ => ⟨_, _, rfl⟩
  | data => exact Delimited.advances ⟨_, DataSegment.recognizes_decode⟩ fun _ => ⟨_, _, rfl⟩
  | name => exact Delimited.advances ⟨_, Names.recognizes_entry⟩ fun _ => ⟨_, _, rfl⟩
  | localNames => exact Delimited.advances ⟨_, Names.recognizes_localEntries⟩ fun _ => ⟨_, _, rfl⟩
  | branchTarget => exact delimited_u32.advances fun _ => ⟨_, _, rfl⟩

theorem advances_localRun (before : Nat) : Advances (FunctionBody.localRun before) :=
  Delimited.advances ⟨_, FunctionBody.recognizes_localRun before⟩ fun _ => ⟨_, _, rfl⟩

/-! ## All elements of a vector -/

/-- Elements with a state that each of them changes for those behind it. -/
def elementsFrom (step : σ → Decoder ε α) (next : σ → α → σ) :
    (position count : Nat) → σ → Decoder (VectorError ε) (List α)
  | _, 0, _ => return []
  | position, count + 1, state => do
    let a ← (step state).mapError (.element position)
    return a :: (← elementsFrom step next (position + 1) count (next state a))

theorem elements_eq (d : Decoder ε α) (count : Nat) : ∀ position,
    elements d position count = elementsFrom (fun _ : Unit => d) (fun _ _ => ()) position count () := by
  induction count with
  | zero => exact fun _ => rfl
  | succ count ih =>
    intro position
    rw [elements, ih]
    rfl

/-- The state of the reader of locals is how many there are in front. -/
theorem localRuns_eq (count : Nat) : ∀ position total, FunctionBody.localRuns position count total =
    elementsFrom FunctionBody.localRun (fun total run => total + run.count.toNat) position count total := by
  induction count with
  | zero => exact fun _ _ => rfl
  | succ count ih =>
    intro position total
    simp only [FunctionBody.localRuns, ih]
    rfl

section

variable {step : σ → Decoder ε α} {next : σ → α → σ}

theorem ahead_of_elementsFrom (h : ∀ state, Advances (step state)) (count : Nat) :
    ∀ (position : Nat) (state : σ) (c c' : Cursor) (as : List α),
      elementsFrom step next position count state c = .ok as c' → as.length = count ∧ Ahead count c c' := by
  induction count with
  | zero =>
    intro position state c c' as hread
    cases hread
    exact ⟨rfl, .refl c⟩
  | succ count ih =>
    intro position state c c' as hread
    obtain ⟨a, c₁, hfirst, hread⟩ := (bind_eq_ok ..).mp hread
    obtain ⟨rest, c₂, hothers, hread⟩ := (bind_eq_ok ..).mp hread
    cases hread
    obtain ⟨hlength, hahead⟩ := ih _ _ _ _ _ hothers
    refine ⟨congrArg (· + 1) hlength, ?_⟩
    rw [Nat.add_comm]
    exact (h state _ _ _ ((mapError_eq_ok ..).mp hfirst)).trans hahead

/-- More elements than there are bytes left: reading stops at one that fails, with all those in front of
it read. -/
theorem unpaid_elementsFrom (h : ∀ state, Advances (step state)) (count : Nat) :
    ∀ (position : Nat) (state : σ) (c : Cursor), c.rest.length < count →
      ∃ k cause c', elementsFrom step next position count state c =
          .error (.element (position + k) cause) c' ∧ k ≤ c.rest.length ∧
        ∃ as c'', elementsFrom step next position k state c = .ok as c'' ∧ as.length = k := by
  induction count with
  | zero => exact fun _ _ _ hshort => absurd hshort (Nat.not_lt_zero _)
  | succ count ih =>
    intro position state c hshort
    cases hfirst : step state c with
    | error cause c' =>
      refine ⟨0, cause, c', ?_, Nat.zero_le _, [], c, rfl, rfl⟩
      exact (bind_eq_error ..).mpr (.inl ((mapError_eq_error ..).mpr ⟨_, hfirst, rfl⟩))
    | ok a c₁ =>
      -- The element took a byte, so the bytes behind it are too few for the others.
      have hlength := (h state _ _ _ hfirst).length_le
      have hmapped := (mapError_eq_ok (VectorError.element position) ..).mpr hfirst
      obtain ⟨k, cause, c', hfails, hk, as, c'', hread, has⟩ :=
        ih (position + 1) (next state a) c₁ (by omega)
      refine ⟨k + 1, cause, c', ?_, by omega, a :: as, c'', ?_, congrArg (· + 1) has⟩
      · rw [Nat.add_right_comm, Nat.add_assoc] at hfails
        exact (bind_eq_error ..).mpr (.inr ⟨a, c₁, hmapped, (bind_eq_error ..).mpr (.inl hfails)⟩)
      · exact (bind_eq_ok ..).mpr ⟨a, c₁, hmapped, (bind_eq_ok ..).mpr ⟨as, c'', hread, rfl⟩⟩

end

/-! ## Counts -/

/-- The bytes behind the count of a vector pay for its elements. `first k` reads the first `k` of them. -/
structure PaysForCount (v : Decoder (VectorError ε) (List α))
    (first : Nat → Decoder (VectorError ε) (List α)) : Prop where
  /-- A vector that was read has as many elements as its count says, and no fewer bytes behind it. -/
  paid (c c' : Cursor) (as : List α) (h : v c = .ok as c') :
    ∃ n c₁, Leb128.u32 c = .ok n c₁ ∧ as.length = n.toNat ∧ Ahead n.toNat c₁ c'
  /-- A count above the number of bytes that are left is an error. The element it is about has no more
  others in front of it than there are bytes, and these were read. -/
  unpaid (c c₁ : Cursor) (n : UInt32) (h : Leb128.u32 c = .ok n c₁) (hshort : c₁.rest.length < n.toNat) :
    ∃ k cause c₂, v c = .error (.element k cause) c₂ ∧ k ≤ c₁.rest.length ∧
      ∃ as c₃, first k c₁ = .ok as c₃ ∧ as.length = k

theorem paysForCount_elementsFrom {step : σ → Decoder ε α} (h : ∀ state, Advances (step state))
    (next : σ → α → σ) (state : σ) :
    PaysForCount
      (do
        let count ← Leb128.u32.mapError .length
        elementsFrom step next 0 count.toNat state)
      fun k => elementsFrom step next 0 k state where
  paid := by
    intro c c' as hread
    obtain ⟨n, c₁, hcount, hread⟩ := (bind_eq_ok ..).mp hread
    exact ⟨n, c₁, (mapError_eq_ok ..).mp hcount, ahead_of_elementsFrom h _ _ _ _ _ _ hread⟩
  unpaid := by
    intro c c₁ n hcount hshort
    obtain ⟨k, cause, c₂, hfails, hk, hread⟩ := unpaid_elementsFrom h n.toNat 0 state c₁ hshort
    rw [Nat.zero_add] at hfails
    refine ⟨k, cause, c₂, ?_, hk, hread⟩
    rw [bind_of_ok ((mapError_eq_ok ..).mpr hcount)]
    exact hfails

theorem paysForCount_vector (h : Advances d) : PaysForCount (vector d) (elements d 0) := by
  have hpays := paysForCount_elementsFrom (fun _ : Unit => h) (fun _ _ => ()) ()
  simp only [← elements_eq] at hpays
  exact hpays

theorem paysForCount_localsVector :
    PaysForCount FunctionBody.localsVector (FunctionBody.localRuns 0 · 0) := by
  have hpays := paysForCount_elementsFrom advances_localRun (fun total run => total + run.count.toNat) 0
  simp only [← localRuns_eq] at hpays
  exact hpays

/-- With its count a vector has more bytes than elements. -/
theorem PaysForCount.length_lt {v : Decoder (VectorError ε) (List α)}
    {first : Nat → Decoder (VectorError ε) (List α)} (h : PaysForCount v first) {c c' : Cursor}
    {as : List α} (hread : v c = .ok as c') : as.length < c.rest.length := by
  obtain ⟨n, c₁, hcount, hlength, hahead⟩ := h.paid c c' as hread
  have hfirst := (ReadsElement.branchTarget.advances _ _ _ hcount).length_le
  have hothers := hahead.length_le
  omega

/-! ## Bytes -/

/-- A byte vector is paid for byte by byte. -/
theorem byteVector_paid {c c' : Cursor} {bytes : Bytes} (h : byteVector c = .ok bytes c') :
    ∃ n c₁, Leb128.u32 c = .ok n c₁ ∧ bytes.length = n.toNat ∧ c₁.rest = bytes ++ c'.rest := by
  obtain ⟨n, c₁, hcount, h⟩ := (bind_eq_ok ..).mp h
  obtain ⟨taken, c₂, htake, h⟩ := (bind_eq_ok ..).mp h
  obtain ⟨rfl, rfl⟩ := EStateM.Result.ok.inj htake
  split at h
  · rename_i hlength
    cases h
    refine ⟨n, c₁, (mapError_eq_ok ..).mp hcount, hlength, ?_⟩
    rw [hlength]
    exact (List.take_append_drop _ _).symm
  · cases h

theorem byteVector_unpaid {c c₁ : Cursor} {n : UInt32} (h : Leb128.u32 c = .ok n c₁)
    (hshort : c₁.rest.length < n.toNat) :
    ∃ c₂, byteVector c = .error (.truncated n.toNat c₁.rest.length) c₂ := by
  have htaken : c₁.rest.take n.toNat = c₁.rest := List.take_of_length_le (Nat.le_of_lt hshort)
  refine ⟨c₁.skip c₁.rest.length, ?_⟩
  rw [byteVector, bind_of_ok ((mapError_eq_ok ..).mpr h)]
  change (if (c₁.rest.take n.toNat).length = n.toNat then pure _ else _ : Decoder _ _) _ = _
  rw [htaken, if_neg (Nat.ne_of_lt hshort)]
  rfl

end Decoder

/-! ## Expressions -/

/-- The offsets of the instructions are different places among the bytes. -/
theorem Instruction.SequenceForm.length_walkAll_le {p : Nat} {bs : Bytes} {e : Expr}
    (h : SequenceForm p bs e) : (walkAll e).length ≤ bs.length := by
  have hplaces : ((walkAll e).map offset).Nodup :=
    List.pairwise_map.mpr (h.ascending.imp Nat.ne_of_lt)
  have hwithin : (walkAll e).map offset ⊆ List.range' p bs.length := by
    intro q hq
    obtain ⟨i, hi, rfl⟩ := List.mem_map.mp hq
    exact List.mem_range'_1.mpr (h.foundIn i hi).bounds
  have hle := (hplaces.subperm hwithin).length_le
  rwa [List.length_map, List.length_range'] at hle

/-- Behind the bytes of the instructions there is the one that closes them. -/
theorem Expr.ahead_of_decode {c c' : Cursor} {e : Expr} (h : Expr.decode c = .ok e c') :
    Ahead ((Instruction.walkAll e).length + 1) c c' := by
  refine Expr.recognizes_decode.ahead h fun bs hbs => ?_
  cases hbs with
  | closed hbody =>
    rw [List.length_append]
    exact Nat.add_le_add_right hbody.length_walkAll_le 1

end WasmBinary
