import WasmBinary.Proofs.Bodies
import WasmBinary.Proofs.Operands

/-!
# Listings can be read back

A listing loses nothing but offsets: if two functions have the same listing below their signatures, in
modules that show functions and globals under the same names, then they have the same locals and the
same instructions.

Each line starts with two columns a level, so a line that is not indented far enough ends a sequence of
instructions, and its first letters tell how the block around it is closed.

* `Module.below_inj`, `Module.trees_inj`: an instruction with all that it nests, and a sequence.
* `Module.locals_inj`: the lines of the locals.
* `Module.disassembly_same_iff`: when two functions have the same text.
-/
namespace WasmBinary

open Text

namespace Module

variable {m m' : Module}

/-! ## Trees -/

/-- The space in front of a line. -/
def indent (level : Nat) : List Char := List.replicate (2 * level) ' '

theorem toList_line (level : Nat) (text : String) :
    (Listing.line level text).toList = indent level ++ (text.toList ++ ['\n']) := by
  rw [Listing.line, String.toList_append, String.toList_append, String.toList_ofList,
    List.append_assoc]
  rfl

theorem toList_treeLine (offset : Option Nat) (level : Nat) (text : String) :
    (treeLine false offset level text).toList = indent level ++ (text.toList ++ ['\n']) := by
  rw [← toList_line, treeLine]
  simp

/-- What stands behind the instructions nested in a block, in front of other text. -/
def closing (m : Module) (level : Nat) (x : List Char) : Instruction → List Char
  | .plain .. => x
  | .block .. => 'e' :: 'n' :: 'd' :: '\n' :: x
  | .ifElse _ _ _ alternative =>
    'e' :: 'l' :: 's' :: 'e' :: '\n' :: ((m.trees false (level + 1) alternative).toList ++
      (indent level ++ 'e' :: 'n' :: 'd' :: '\n' :: x))
  | .tryDelegate _ _ _ label => 'd' :: ("elegate ".toList ++ ((toString label).toList ++ '\n' :: x))

/-- What stands below the line of an instruction, in front of other text. -/
def below (m : Module) (level : Nat) (x : List Char) (i : Instruction) : List Char :=
  match i.operands with
  | .immediate _ => x
  | .block _ => (m.trees false (level + 1) i.body).toList ++ (indent level ++ m.closing level x i)

theorem toList_tree (m : Module) (level : Nat) (i : Instruction) (x : List Char) :
    (m.tree false level i).toList ++ x =
      indent level ++ ((m.instructionText i).toList ++ '\n' :: m.below level x i) := by
  have hend : "end".toList = ['e', 'n', 'd'] := by decide
  have helse : "else".toList = ['e', 'l', 's', 'e'] := by decide
  have hdelegate : "delegate ".toList = 'd' :: "elegate ".toList := by decide
  cases i <;>
    simp only [tree, below, closing, toList_treeLine, Instruction.operands, Instruction.body,
      String.toList_append, hend, helse, hdelegate, List.append_assoc, List.cons_append,
      List.nil_append]

/-- No line of an instruction at a level starts here. -/
def Closes (level : Nat) (text : List Char) : Prop := ¬ indent level <+: text

theorem closes_nil (level : Nat) : Closes (level + 1) [] := by
  simp [Closes, indent, List.replicate_succ, Nat.mul_succ]

theorem closes_indent (level : Nat) {c : Char} (h : c ≠ ' ') (text : List Char) :
    Closes (level + 1) (indent level ++ c :: text) := by
  have hindent : indent (level + 1) = indent level ++ [' ', ' '] := by
    rw [indent, Nat.mul_succ, List.replicate_add]
    rfl
  rw [Closes, hindent, List.prefix_append_right_inj, List.cons_prefix_cons]
  exact fun hspace => h hspace.1.symm

theorem closes_closing (m : Module) (level : Nat) (x : List Char) {i : Instruction} {t : BlockType}
    (h : i.operands = .block t) : Closes (level + 1) (indent level ++ m.closing level x i) := by
  cases i with
  | plain o p immediate => cases h
  | block | ifElse | tryDelegate => exact closes_indent level (by decide) _

theorem below_of_block (m : Module) (level : Nat) (x : List Char) {i : Instruction} {t : BlockType}
    (h : i.operands = .block t) : m.below level x i =
      (m.trees false (level + 1) i.body).toList ++ (indent level ++ m.closing level x i) := by
  rw [below, h]

mutual

/-- What stands below the line of an instruction can be read back. The line behind the nested
instructions tells how the instruction is closed. -/
theorem below_inj (hnames : m.SameDisplayNames m') (level : Nat) :
    ∀ (i i' : Instruction) (x y : List Char),
    (∀ j ∈ i.walk, j.Legible) → (∀ j ∈ i'.walk, j.Legible) → i.opcode = i'.opcode →
    i.operands = i'.operands → m.below level x i = m'.below level y i' →
    i.mapOffsets (fun _ => 0) = i'.mapOffsets (fun _ => 0) ∧ x = y
  | .plain o p immediate, i', x, y, _, _, ho, hoperands, h => by
    cases i' with
    | plain o' p' immediate' =>
      cases ho
      cases hoperands
      exact ⟨rfl, h⟩
    | _ => cases hoperands
  | .block o p t body, i', x, y, hi, hi', ho, hoperands, h => by
    rw [m'.below_of_block level y hoperands.symm] at h
    obtain ⟨hbody, hclosing⟩ := trees_inj hnames (level + 1) body i'.body _ _
      (Instruction.legible_body hi) (Instruction.legible_body hi')
      (m.closes_closing level x rfl) (m'.closes_closing level y hoperands.symm) h
    have hclosing := List.append_cancel_left hclosing
    cases i' with
    | plain o' p' immediate' => cases hoperands
    | ifElse p' t' body' alternative' => cases hclosing
    | tryDelegate p' t' body' label' => cases hclosing
    | block o' p' t' body' =>
      cases ho
      cases hoperands
      cases hclosing
      simp only [Instruction.mapOffsets, and_true]
      exact congrArg (Instruction.block o 0 t) hbody
  | .ifElse p t body alternative, i', x, y, hi, hi', _, hoperands, h => by
    rw [m'.below_of_block level y hoperands.symm] at h
    obtain ⟨hbody, hclosing⟩ := trees_inj hnames (level + 1) body i'.body _ _
      (Instruction.legible_body hi) (Instruction.legible_body hi')
      (m.closes_closing level x rfl) (m'.closes_closing level y hoperands.symm) h
    have hclosing := List.append_cancel_left hclosing
    cases i' with
    | plain o' p' immediate' => cases hoperands
    | block o' p' t' body' => cases hclosing
    | tryDelegate p' t' body' label' => cases hclosing
    | ifElse p' t' body' alternative' =>
      cases hoperands
      simp only [closing, List.cons.injEq, true_and] at hclosing
      obtain ⟨halternative, hend⟩ := trees_inj hnames (level + 1) alternative alternative' _ _
        (fun j hj => hi j (.tail _ (List.mem_append_right _ hj)))
        (fun j hj => hi' j (.tail _ (List.mem_append_right _ hj)))
        (closes_indent level (by decide) _) (closes_indent level (by decide) _) hclosing
      cases List.append_cancel_left hend
      simp only [Instruction.mapOffsets, and_true]
      exact congrArg₂ (Instruction.ifElse 0 t) hbody halternative
  | .tryDelegate p t body label, i', x, y, hi, hi', _, hoperands, h => by
    rw [m'.below_of_block level y hoperands.symm] at h
    obtain ⟨hbody, hclosing⟩ := trees_inj hnames (level + 1) body i'.body _ _
      (Instruction.legible_body hi) (Instruction.legible_body hi')
      (m.closes_closing level x rfl) (m'.closes_closing level y hoperands.symm) h
    have hclosing := List.append_cancel_left hclosing
    cases i' with
    | plain o' p' immediate' => cases hoperands
    | block o' p' t' body' => cases hclosing
    | ifElse p' t' body' alternative' => cases hclosing
    | tryDelegate p' t' body' label' =>
      cases hoperands
      obtain ⟨hlabel, hend⟩ := (isWord_toString label.toNat).append_inj
        (isWord_toString label'.toNat) (endsWords_lineEnd x).endsWord (endsWords_lineEnd y).endsWord
        (List.append_cancel_left (List.cons.inj hclosing).2)
      cases UInt32.toNat_inj.mp (toString_inj hlabel)
      simp only [Instruction.mapOffsets]
      exact ⟨congrArg (Instruction.tryDelegate 0 t · label) hbody, (List.cons.inj hend).2⟩

/-- A sequence can be read back, up to where a line of no instruction stands. -/
theorem trees_inj (hnames : m.SameDisplayNames m') (level : Nat) :
    ∀ (e e' : List Instruction) (x y : List Char),
    (∀ j ∈ Instruction.walkAll e, j.Legible) → (∀ j ∈ Instruction.walkAll e', j.Legible) →
    Closes level x → Closes level y →
    (m.trees false level e).toList ++ x = (m'.trees false level e').toList ++ y →
    Instruction.mapOffsetsAll (fun _ => 0) e = Instruction.mapOffsetsAll (fun _ => 0) e' ∧ x = y
  | [], [], x, y, _, _, _, _, h => ⟨rfl, h⟩
  | [], i' :: rest', x, y, _, _, hx, _, h => by
    rw [trees, trees, String.toList_append, List.append_assoc, toList_tree] at h
    exact absurd ⟨_, h.symm⟩ hx
  | i :: rest, [], x, y, _, _, _, hy, h => by
    rw [trees, trees, String.toList_append, List.append_assoc, toList_tree] at h
    exact absurd ⟨_, h⟩ hy
  | i :: rest, i' :: rest', x, y, he, he', hx, hy, h => by
    obtain ⟨hi, hrest⟩ := List.forall_mem_append.mp he
    obtain ⟨hi', hrest'⟩ := List.forall_mem_append.mp he'
    rw [trees, trees, String.toList_append, String.toList_append, List.append_assoc,
      List.append_assoc, toList_tree, toList_tree] at h
    obtain ⟨ho, hoperands, hbelow⟩ := instructionText_append_inj hnames
      (hi i i.mem_walk) (hi' i' i'.mem_walk) (List.append_cancel_left h)
    obtain ⟨hfirst, htrees⟩ := below_inj hnames level i i' _ _ hi hi' ho hoperands hbelow
    obtain ⟨hothers, hxy⟩ := trees_inj hnames level rest rest' x y hrest hrest' hx hy htrees
    exact ⟨by simp only [Instruction.mapOffsetsAll, hfirst, hothers], hxy⟩

end

/-! ## Locals -/

def localText (run : LocalRun) : String :=
  Listing.line 1 ("(local " ++ toString run.count ++ " x " ++ run.type.text ++ ")")

theorem toList_localText (run : LocalRun) (x : List Char) : (localText run).toList ++ x =
    indent 1 ++ '(' :: ("local ".toList ++ ((toString run.count).toList ++
      ' ' :: 'x' :: ' ' :: (run.type.text.toList ++ ')' :: '\n' :: x))) := by
  have hword : "(local ".toList = '(' :: "local ".toList := by decide
  have hmiddle : " x ".toList = [' ', 'x', ' '] := by decide
  have hclose : ")".toList = [')'] := by decide
  simp only [localText, toList_line, String.toList_append, hword, hmiddle, hclose, List.append_assoc,
    List.cons_append, List.nil_append]

/-- No line of locals starts here. -/
def EndsLocals (text : List Char) : Prop := ¬ indent 1 ++ ['('] <+: text

theorem endsLocals_trees (m : Module) (e : Expr) : EndsLocals (m.trees false 1 e).toList := by
  cases e with
  | nil => simp [EndsLocals, trees, indent]
  | cons i rest =>
    have hword := i.opcode.isWord_mnemonic
    have hne := i.opcode.mnemonic_ne_nil
    rw [EndsLocals, trees, String.toList_append, toList_tree, List.prefix_append_right_inj,
      instructionText_eq, String.toList_append, List.append_assoc]
    rw [IsWord] at hword
    generalize i.opcode.mnemonic.toList = mnemonic at hword hne
    cases mnemonic with
    | nil => exact absurd rfl hne
    | cons c mnemonic =>
      rw [List.cons_append, List.cons_prefix_cons]
      rintro ⟨rfl, -⟩
      exact absurd (hword _ List.mem_cons_self) (by decide)

theorem locals_inj : ∀ {runs runs' : List LocalRun} {x y : List Char}, EndsLocals x → EndsLocals y →
    (String.join (runs.map localText)).toList ++ x =
      (String.join (runs'.map localText)).toList ++ y → runs = runs' ∧ x = y
  | [], [], x, y, _, _, h => ⟨rfl, h⟩
  | [], run' :: runs', x, y, hx, _, h => by
    rw [List.map_cons, String.join_cons, String.toList_append, List.append_assoc,
      toList_localText] at h
    exact absurd ⟨_, (List.append_assoc _ ['('] _).trans h.symm⟩ hx
  | run :: runs, [], x, y, _, hy, h => by
    rw [List.map_cons, String.join_cons, String.toList_append, List.append_assoc,
      toList_localText] at h
    exact absurd ⟨_, (List.append_assoc _ ['('] _).trans h⟩ hy
  | run :: runs, run' :: runs', x, y, hx, hy, h => by
    rw [List.map_cons, List.map_cons, String.join_cons, String.join_cons, String.toList_append,
      String.toList_append, List.append_assoc, List.append_assoc, toList_localText,
      toList_localText] at h
    obtain ⟨hcount, hrest⟩ := (isWord_toString run.count.toNat).append_inj
      (isWord_toString run'.count.toNat) (endsWord_cons (c := ' ') (by decide) _)
      (endsWord_cons (c := ' ') (by decide) _)
      (List.append_cancel_left (List.cons.inj (List.append_cancel_left h)).2)
    simp only [List.cons.injEq, true_and] at hrest
    obtain ⟨htype, hrest⟩ := run.type.isWord_text.append_inj run'.type.isWord_text
      (endsWord_cons (c := ')') (by decide) _) (endsWord_cons (c := ')') (by decide) _) hrest
    simp only [List.cons.injEq, true_and] at hrest
    obtain ⟨rfl, hxy⟩ := locals_inj hx hy hrest
    have hrun : run = run' := by
      cases run
      cases run'
      cases UInt32.toNat_inj.mp (toString_inj hcount)
      cases ValueType.text_inj htype
      rfl
    exact ⟨congrArg (· :: runs) hrun, hxy⟩

/-! ## Functions -/

theorem legible_of_functionBody {i : Nat} {body : FunctionBody} (h : m.functionBody i = .ok body)
    (hlegible : body.isLegible = true) : ∀ j ∈ Instruction.walkAll body.instructions, j.Legible := by
  have hall := List.all_eq_true.mp hlegible
  obtain ⟨code, -, hform⟩ := form_of_functionBody h
  intro j hj
  obtain ⟨-, own, -, -, -, hown⟩ := hform.foundIn j hj
  exact ⟨hown.operands, hall j hj⟩

/-- What stands below the signature of a function. -/
def bodyText (m : Module) (body : FunctionBody) : String :=
  String.join (body.locals.map localText) ++ m.trees false 1 body.instructions

theorem disassembly_eq_bodyText {i : Nat} {body : FunctionBody} (h : m.functionBody i = .ok body) :
    m.disassembly false i = .ok (Listing.line 0 (m.signature i) ++ m.bodyText body) := by
  rw [disassembly, h, bodyText, ← String.append_assoc]
  rfl

/-- Functions have the same text below their signatures if and only if they have the same locals and
the same instructions, wherever these stand. -/
theorem disassembly_same_iff (hnames : m.SameDisplayNames m') {i j : Nat} {body body' : FunctionBody}
    (hbody : m.functionBody i = .ok body) (hbody' : m'.functionBody j = .ok body')
    (hlegible : body.isLegible = true) (hlegible' : body'.isLegible = true) :
    ∃ text text' : String,
      m.disassembly false i = .ok (Listing.line 0 (m.signature i) ++ text) ∧
      m'.disassembly false j = .ok (Listing.line 0 (m'.signature j) ++ text') ∧
      (text = text' ↔ body.locals = body'.locals ∧
        body.instructions.withoutOffsets = body'.instructions.withoutOffsets) := by
  refine ⟨m.bodyText body, m'.bodyText body', disassembly_eq_bodyText hbody,
    disassembly_eq_bodyText hbody', fun h => ?_, fun h => ?_⟩
  · have hlist := congrArg String.toList h
    rw [bodyText, bodyText, String.toList_append, String.toList_append] at hlist
    obtain ⟨hlocals, htrees⟩ := locals_inj (m.endsLocals_trees _) (m'.endsLocals_trees _) hlist
    have hsame := trees_inj hnames 1 body.instructions body'.instructions [] []
      (legible_of_functionBody hbody hlegible) (legible_of_functionBody hbody' hlegible')
      (closes_nil 0) (closes_nil 0) (by rw [List.append_nil, List.append_nil, htrees])
    exact ⟨hlocals, hsame.1⟩
  · obtain ⟨hlocals, hsame⟩ := h
    have hself : m'.SameDisplayNames m' := ⟨fun _ => rfl, fun _ => rfl⟩
    have htrees := hself.trees (fun _ => 0) 1 body'.instructions
    rw [← Expr.mapOffsets, ← Expr.withoutOffsets, ← hsame] at htrees
    rw [bodyText, bodyText, hlocals, ← htrees]
    exact congrArg _ (hnames.trees (fun _ => 0) 1 body.instructions).symm

/-- Code with one local and an `if` that has a floating-point constant in its first arm. -/
def zeroCode (sign : UInt8) : Bytes :=
  [1, 1, 0x7F, 0x04, 0x40, 0x43, 0, 0, 0, sign, 0x1A, 0x05, 0x01, 0x0B, 0x0B]

/-- The first two functions have the same code, the constant of the third one is negative. -/
def zeros : Module where
  source := []
  version := 1
  functions := [0, 0, 0]
  codes := [⟨0, 20, zeroCode 0⟩, ⟨1, 36, zeroCode 0⟩, ⟨2, 52, zeroCode 0x80⟩]

/-- The two zeros are told apart, the places of the functions are not. -/
theorem disassembly_same_iff_zeros :
    zeros.SameDisplayNames zeros ∧
      (∃ text, zeros.disassembly false 0 = .ok (Listing.line 0 (zeros.signature 0) ++ text) ∧
        zeros.disassembly false 1 = .ok (Listing.line 0 (zeros.signature 1) ++ text)) ∧
      ∃ text text', text ≠ text' ∧
        zeros.disassembly false 0 = .ok (Listing.line 0 (zeros.signature 0) ++ text) ∧
        zeros.disassembly false 2 = .ok (Listing.line 0 (zeros.signature 2) ++ text') := by
  have hnames : zeros.SameDisplayNames zeros := ⟨fun _ => rfl, fun _ => rfl⟩
  obtain ⟨first, second, third, hfirst, hsecond, hthird, hlegible, hlegible', hlegible'', hlocals,
      hsame, hother⟩ : ∃ first second third,
      zeros.functionBody 0 = .ok first ∧ zeros.functionBody 1 = .ok second ∧
      zeros.functionBody 2 = .ok third ∧ first.isLegible = true ∧ second.isLegible = true ∧
      third.isLegible = true ∧ first.locals = second.locals ∧
      first.instructions.withoutOffsets = second.instructions.withoutOffsets ∧
      (Instruction.walkAll first.instructions.withoutOffsets).map Instruction.text ≠
        (Instruction.walkAll third.instructions.withoutOffsets).map Instruction.text :=
    ⟨_, _, _, rfl, rfl, rfl, rfl, rfl, rfl, rfl, rfl, by decide +kernel⟩
  obtain ⟨text, text', htext, htext', hiff⟩ :=
    disassembly_same_iff hnames hfirst hsecond hlegible hlegible'
  obtain ⟨shown, shown', hshown, hshown', hiff'⟩ :=
    disassembly_same_iff hnames hfirst hthird hlegible hlegible''
  refine ⟨hnames, ⟨text, htext, ?_⟩, shown, shown', fun heq => hother ?_, hshown, hshown'⟩
  · rw [hiff.mpr ⟨hlocals, hsame⟩]
    exact htext'
  · rw [(hiff'.mp heq).2]

end Module

end WasmBinary
