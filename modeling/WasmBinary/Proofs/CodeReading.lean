import WasmBinary.Proofs.Truncation

/-!
# Reading the code later

A file is read with or without its Code sections. What is read without them tells where they are, so
that they can be read later, and this comes to the same as reading them at once.

* `Module.readCodes`: the Code sections of a module, each in the place of the one before.
* `Scans.outcome_true`: the loop of the reader, with the code, behind a run without it.
* `Module.decode_true_eq`: reading with the code is reading without it and then the code.
* `Module.decode_code_apart`: nothing else depends on whether the code is read.
-/
namespace WasmBinary

open Decoder (bind_eq_error mapError_eq_error mapError_eq_ok map_eq_ok)

/-! ## Code sections -/

namespace Section

variable {file : Bytes} {s : Section} {table : List Section} {found : List Code}

/-- What a Code section of a file holds. -/
def codes (s : Section) (file : Bytes) : Except (VectorError CodeError) (List Code) :=
  Code.decodeAll.outcome ⟨s.payload, (s.payload? file).getD []⟩

/-- Reads the Code sections of a table one after the other. Each replaces what was found before. -/
def lastCodes (file : Bytes) (found : List Code) (table : List Section) :
    Except (VectorError CodeError) (List Code) :=
  (table.filter (·.kind = .code)).foldlM (fun _ s => s.codes file) found

theorem lastCodes_cons_of_code (h : s.kind = .code) : lastCodes file found (s :: table) =
    s.codes file >>= fun found => lastCodes file found table := by
  rw [lastCodes, List.filter_cons, if_pos (decide_eq_true h), List.foldlM_cons]
  rfl

theorem lastCodes_cons_of_ne_code (h : s.kind ≠ .code) :
    lastCodes file found (s :: table) = lastCodes file found table := by
  rw [lastCodes, List.filter_cons, if_neg fun hs => h (of_decide_eq_true hs)]
  rfl

end Section

theorem RawSection.codes_entry (r : RawSection) (front back : Bytes) :
    (r.entry front.length).codes (front ++ (r.bytes ++ back)) =
      Code.decodeAll.outcome ⟨r.payloadOffset front.length, r.payload⟩ := by
  rw [Section.codes, payload?_entry]
  rfl

namespace Module

/-- The module with the code that was found for it. -/
def withCodes (m : Module) (codes : List Code) : Module := { m with codes }

/-- Reads the Code sections of a module that was read without them. -/
def readCodes (m : Module) : Except (VectorError CodeError) (List Code) :=
  Section.lastCodes m.source [] m.sections

end Module

/-! ## The loop of the reader -/

/-- Only a Code section changes the code. -/
theorem Payload.addTo_withCodes {pl : Payload} (h : pl.kind? ≠ some .code) (m : Module)
    (codes : List Code) : pl.addTo (m.withCodes codes) = (pl.addTo m).withCodes codes := by
  cases pl with
  | custom found names => cases names <;> rfl
  | codes found => exact absurd rfl h
  | _ => rfl

/-- The loop of the reader ends at a payload that cannot be read. -/
theorem Module.decodeSections_of_error {readCode : Bool} {p : Nat} {r : RawSection}
    {e : ModuleError} {c : Cursor}
    (h : Payload.decode readCode r.kind ⟨r.payloadOffset p, r.payload⟩ = .error e c) (bound : Nat)
    (m : Module) (rest : Bytes) :
    decodeSections readCode (bound + 1) m ⟨p, r.bytes ++ rest⟩ = .error e c := by
  have hpayload : m.decodePayload readCode r.kind ⟨r.payloadOffset p, r.payload⟩ = .error e c := by
    rw [decodePayload_eq]
    exact (bind_eq_error ..).mpr (.inl h)
  rw [decodeSections_succ_append]
  refine (bind_eq_error ..).mpr (.inl ?_)
  simp only [Decoder.within, List.take_left, hpayload]

/-- A turn of the loop at a section that is no Code section. -/
theorem RawSection.decodeSections_of_ne_code {r : RawSection} {p : Nat} {pl : Payload}
    (h : r.Holds false p pl) (hkind : r.kind ≠ .code) (bound : Nat) (m : Module)
    (codes : List Code) (rest : Bytes) :
    Module.decodeSections true (bound + 1) (m.withCodes codes) ⟨p, r.bytes ++ rest⟩ =
      Module.decodeSections true bound ((m.addSection pl (r.entry p)).withCodes codes)
        ⟨p + r.bytes.length, rest⟩ := by
  obtain ⟨c, hread⟩ := h
  have hholds : r.Holds true p pl := ⟨c, Payload.decode_of_ne_code hkind true ▸ hread⟩
  have hpl : pl.kind? ≠ some .code := by
    rcases Payload.kind?_of_decode hread with rfl | hpl
    · exact fun h => nomatch h
    · rw [hpl]
      exact fun h => hkind (Option.some.inj h)
  rw [Module.decodeSections_of_holds hholds, Module.addSection, Payload.addTo_withCodes hpl]
  rfl

/-- With the code, the loop of the reader fails at the first Code section that cannot be read, and
makes the same module otherwise. -/
theorem Scans.outcome_true {p : Nat} {m m' : Module} {rs : List RawSection}
    (h : Scans false p m rs m') : ∀ (front : Bytes), p = front.length →
      ∀ (bound : Nat) (codes : List Code),
        (Module.decodeSections true (bound + rs.length) (m.withCodes codes)).outcome
            ⟨p, RawSection.join rs⟩ =
          ((Section.lastCodes (front ++ RawSection.join rs) codes (RawSection.entries p rs)).map
            m'.withCodes).mapError .codes := by
  induction h with
  | nil =>
    intro front _ bound codes
    cases bound <;> rfl
  | @cons p m m' r rs pl first _ ih =>
    rintro front rfl bound codes
    have hrest := ih (front ++ r.bytes) List.length_append.symm bound
    have hjoin : RawSection.join (r :: rs) = r.bytes ++ RawSection.join rs := rfl
    rw [List.append_assoc] at hrest
    rw [hjoin, List.length_cons, ← Nat.add_assoc, RawSection.entries]
    by_cases hkind : r.kind = .code
    · obtain ⟨c, hread⟩ := first
      rw [hkind] at hread
      cases hread
      rw [Section.lastCodes_cons_of_code hkind, RawSection.codes_entry]
      cases hcodes : Code.decodeAll ⟨r.payloadOffset front.length, r.payload⟩ with
      | error e c' =>
        have hpayload : Payload.decode true r.kind ⟨r.payloadOffset front.length, r.payload⟩ =
            .error (.codes e) c' := by
          rw [hkind]
          exact (bind_eq_error ..).mpr (.inl ((mapError_eq_error ..).mpr ⟨e, hcodes, rfl⟩))
        simp only [Decoder.outcome, Module.decodeSections_of_error hpayload, hcodes]
        rfl
      | ok found c' =>
        have hpayload : r.Holds true front.length (.codes found) := by
          refine ⟨c', ?_⟩
          rw [hkind]
          exact (map_eq_ok ..).mpr ⟨found, (mapError_eq_ok ..).mpr hcodes, rfl⟩
        rw [Decoder.outcome, Module.decodeSections_of_holds hpayload]
        simp only [Decoder.outcome, hcodes]
        exact hrest found
    · rw [Section.lastCodes_cons_of_ne_code hkind, Decoder.outcome,
        RawSection.decodeSections_of_ne_code first hkind]
      exact hrest codes

namespace Module

/-- Reading the code at once or later comes to the same. -/
theorem decode_true_eq {file : Bytes} {m : Module} (hm : decode false file = .ok m) :
    decode true file = (m.readCodes.map m.withCodes).mapError .codes := by
  obtain ⟨version, rs, rfl, hscan, hsections⟩ := exists_scans_of_decode hm
  have hlength := RawSection.length_le_join rs
  obtain ⟨bound, hbound⟩ : ∃ bound,
      (preamble version ++ RawSection.join rs).length = bound + rs.length := by
    refine ⟨(preamble version ++ RawSection.join rs).length - rs.length, ?_⟩
    rw [List.length_append]
    omega
  have hsource : m.source = preamble version ++ RawSection.join rs := hscan.places.1
  have hloop := hscan.outcome_true (preamble version) (length_preamble version).symm bound []
  rw [← hsections, ← hbound] at hloop
  rw [decode_preamble_append, readCodes, hsource]
  exact hloop

/-- Whether the code is read makes no difference to anything else. If a file can be read with its
code, then also without, and only the code is missing. If it can be read without, then with the code
either the same is read and the code, or the code cannot be read. -/
theorem decode_code_apart (file : Bytes) :
    (∀ m, decode true file = .ok m → decode false file = .ok { m with codes := [] }) ∧
    ∀ m, decode false file = .ok m →
      ((∃ codes, decode true file = .ok { m with codes }) ∨
        ∃ cause, decode true file = .error (.codes cause)) ∧
      decode true file = (m.readCodes.map fun codes => { m with codes }).mapError .codes := by
  refine ⟨fun m hm => decode_withoutCode hm, fun m hm => ?_⟩
  have htrue : decode true file = (m.readCodes.map fun codes => { m with codes }).mapError .codes :=
    decode_true_eq hm
  refine ⟨?_, htrue⟩
  rw [htrue]
  cases m.readCodes with
  | ok codes => exact .inl ⟨codes, rfl⟩
  | error cause => exact .inr ⟨cause, rfl⟩

/-- A file whose code can be read, and one that ends inside its code. -/
theorem decode_code_apart_sample :
    decode true sample.source = .ok sample ∧
      decode false sample.source = .ok { sample with codes := [] } ∧
      (∃ m, decode false (preamble 1 ++ [10, 1, 1]) = .ok m) ∧
      ∃ cause, decode true (preamble 1 ++ [10, 1, 1]) = .error (.codes cause) := by
  have hsample : decode true sample.source = .ok sample := rfl
  obtain ⟨hwithout, -⟩ := decode_code_apart sample.source
  obtain ⟨-, hwith⟩ := decode_code_apart (preamble 1 ++ [10, 1, 1])
  have hcut : decode false (preamble 1 ++ [10, 1, 1]) =
      .ok { source := preamble 1 ++ [10, 1, 1], version := 1, sections := [⟨.code, 1, 8, 10⟩] } :=
    rfl
  refine ⟨hsample, hwithout _ hsample, ⟨_, hcut⟩, ?_⟩
  obtain ⟨⟨codes, hread⟩ | hcause, -⟩ := hwith _ hcut
  · cases hread
  · exact hcause

end Module

end WasmBinary
