import WasmBinary.Module.Basic
import WasmBinary.Instruction.Decode

/-!
# Offsets in the entities of a module

Instructions and function bodies record where in the file they were found. `mapOffsets f` moves them
to other places; `withoutOffsets` forgets the places, which leaves what does not depend on them.

* `Instruction.mapOffsets_mapOffsets` and its kin: moving twice is moving once. Moving before
  forgetting therefore changes nothing (`withoutOffsets_mapOffsets`).
-/
namespace WasmBinary

/-! ## Instructions -/

namespace Instruction

mutual

/-- The instruction with `f p` for every offset `p` in it. -/
def mapOffsets (f : Nat → Nat) : Instruction → Instruction
  | plain o p i => plain o (f p) i
  | block o p t body => block o (f p) t (mapOffsetsAll f body)
  | ifElse p t body alternative =>
    ifElse (f p) t (mapOffsetsAll f body) (mapOffsetsAll f alternative)
  | tryDelegate p t body label => tryDelegate (f p) t (mapOffsetsAll f body) label

def mapOffsetsAll (f : Nat → Nat) : List Instruction → List Instruction
  | [] => []
  | i :: rest => mapOffsets f i :: mapOffsetsAll f rest

end

mutual

theorem mapOffsets_mapOffsets (f g : Nat → Nat) : ∀ i : Instruction,
    (i.mapOffsets f).mapOffsets g = i.mapOffsets fun p => g (f p)
  | plain .. => rfl
  | block _ _ _ body => by
    simp only [mapOffsets, mapOffsetsAll_mapOffsetsAll f g body]
  | ifElse _ _ body alternative => by
    simp only [mapOffsets, mapOffsetsAll_mapOffsetsAll f g body,
      mapOffsetsAll_mapOffsetsAll f g alternative]
  | tryDelegate _ _ body _ => by
    simp only [mapOffsets, mapOffsetsAll_mapOffsetsAll f g body]

theorem mapOffsetsAll_mapOffsetsAll (f g : Nat → Nat) : ∀ e : List Instruction,
    mapOffsetsAll g (mapOffsetsAll f e) = mapOffsetsAll (fun p => g (f p)) e
  | [] => rfl
  | i :: rest => by
    simp only [mapOffsetsAll, mapOffsets_mapOffsets f g i, mapOffsetsAll_mapOffsetsAll f g rest]

end

end Instruction

namespace Expr

def mapOffsets (f : Nat → Nat) (e : Expr) : Expr := Instruction.mapOffsetsAll f e

theorem mapOffsets_mapOffsets (f g : Nat → Nat) (e : Expr) :
    (Expr.mapOffsets g (e.mapOffsets f)) = e.mapOffsets fun p => g (f p) :=
  Instruction.mapOffsetsAll_mapOffsetsAll f g e

def withoutOffsets (e : Expr) : Expr := e.mapOffsets fun _ => 0

end Expr

/-! ## Globals and segments -/

namespace Global

def mapOffsets (f : Nat → Nat) (g : Global) : Global := { g with init := g.init.mapOffsets f }

def withoutOffsets (g : Global) : Global := g.mapOffsets fun _ => 0

theorem withoutOffsets_mapOffsets (f : Nat → Nat) (g : Global) :
    (g.mapOffsets f).withoutOffsets = g.withoutOffsets := by
  simp only [withoutOffsets, mapOffsets, Expr.mapOffsets_mapOffsets]

end Global

def ElementMode.mapOffsets (f : Nat → Nat) : ElementMode → ElementMode
  | active table offset => active table (offset.mapOffsets f)
  | passive => passive
  | declarative => declarative

def ElementItems.mapOffsets (f : Nat → Nat) : ElementItems → ElementItems
  | functions indices => functions indices
  | expressions items => expressions (items.map (Expr.mapOffsets f))

namespace Element

def mapOffsets (f : Nat → Nat) (e : Element) : Element :=
  { e with mode := e.mode.mapOffsets f, items := e.items.mapOffsets f }

def withoutOffsets (e : Element) : Element := e.mapOffsets fun _ => 0

theorem withoutOffsets_mapOffsets (f : Nat → Nat) (e : Element) :
    (e.mapOffsets f).withoutOffsets = e.withoutOffsets := by
  obtain ⟨flags, mode, type, items⟩ := e
  have hmode : (mode.mapOffsets f).mapOffsets (fun _ => 0) = mode.mapOffsets fun _ => 0 := by
    cases mode <;> simp only [ElementMode.mapOffsets, Expr.mapOffsets_mapOffsets]
  have hitems : (items.mapOffsets f).mapOffsets (fun _ => 0) = items.mapOffsets fun _ => 0 := by
    cases items <;> simp [ElementItems.mapOffsets, Expr.mapOffsets_mapOffsets]
  simp only [withoutOffsets, mapOffsets, hmode, hitems]

end Element

def DataMode.mapOffsets (f : Nat → Nat) : DataMode → DataMode
  | active offset => active (offset.mapOffsets f)
  | passive => passive
  | activeIn memory offset => activeIn memory (offset.mapOffsets f)

def DataMode.withoutOffsets (mode : DataMode) : DataMode := mode.mapOffsets fun _ => 0

namespace DataSegment

def mapOffsets (f : Nat → Nat) (d : DataSegment) : DataSegment :=
  { d with mode := d.mode.mapOffsets f }

def withoutOffsets (d : DataSegment) : DataSegment := d.mapOffsets fun _ => 0

theorem withoutOffsets_mapOffsets (f : Nat → Nat) (d : DataSegment) :
    (d.mapOffsets f).withoutOffsets = d.withoutOffsets := by
  obtain ⟨mode, init⟩ := d
  cases mode <;>
    simp only [withoutOffsets, mapOffsets, DataMode.mapOffsets, Expr.mapOffsets_mapOffsets]

end DataSegment

/-! ## Code -/

namespace Code

def mapOffset (f : Nat → Nat) (c : Code) : Code := { c with offset := f c.offset }

def withoutOffset (c : Code) : Code := c.mapOffset fun _ => 0

end Code

/-! ## Modules -/

/-- What a module holds, without where it was found: no source, no section table and no offsets. -/
def Module.withoutPlaces (m : Module) : Module :=
  { m with
    source := []
    sections := []
    globals := m.globals.map Global.withoutOffsets
    elements := m.elements.map Element.withoutOffsets
    codes := m.codes.map Code.withoutOffset
    datas := m.datas.map DataSegment.withoutOffsets }

/-- The module with `f p` for every offset `p` in its entities. -/
def Module.mapOffsets (f : Nat → Nat) (m : Module) : Module :=
  { m with
    globals := m.globals.map (Global.mapOffsets f)
    elements := m.elements.map (Element.mapOffsets f)
    codes := m.codes.map (Code.mapOffset f)
    datas := m.datas.map (DataSegment.mapOffsets f) }

/-- What a module holds beside its file and what is listed section by section. -/
def Module.entities (m : Module) : Module := { m with source := [], sections := [], customs := [] }

end WasmBinary
