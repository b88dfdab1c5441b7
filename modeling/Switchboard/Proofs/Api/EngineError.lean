import Switchboard.Api.EngineError
import Switchboard.Proofs.Form.Basic
/-!
Which payloads report an error of the engine. An object does if it has a code and a message, each once and of its kind;
but a list does so, too, if its items are a code and a message. Any other payload is a message of its own.
-/
namespace Switchboard

section Members

variable {members : List (Except Fault String × Doc)} {name : String} {names : List String} {d : Doc}

/-- The documents that stand under a name. -/
def Doc.under (name : String) (members : List (Except Fault String × Doc)) : List Doc :=
  (members.filter fun m => isNamed name m.1).map Prod.snd

theorem findMember_eq_under (name : String) (members : List (Except Fault String × Doc)) :
    findMember name members =
      match Doc.under name members with
      | [] => .ok none
      | [d] => .ok (some d)
      | _ => .error .malformed := by
  unfold findMember Doc.under
  generalize members.filter (fun m => isNamed name m.1) = found
  match found with
  | [] | [_] | _ :: _ :: _ => rfl

theorem findMember_eq_none : findMember name members = .ok none ↔ Doc.under name members = [] := by
  rw [findMember_eq_under]
  split
  case h_1 h => simp [h]
  case h_2 h => simp [h]
  case h_3 hmore _ => simpa using hmore

theorem findMember_eq_some : findMember name members = .ok (some d) ↔ Doc.under name members = [d] := by
  rw [findMember_eq_under]
  split
  case h_1 h => simp [h]
  case h_2 h => simp [h]
  case h_3 hmore => simpa using hmore d

end Members

/-- What the documents under its name make of a field: the one that there is, or its value for when there is none. -/
def Field.Holds {α : Type} (field : Field α) (r : Reading) (ds : List Doc) (a : α) : Prop :=
  ds = [] ∧ field.absent = some a ∨ ∃ d, ds = [d] ∧ field.decode r d = .ok a

namespace Fields

variable {α β : Type} {field : Field α} {rest : Fields β} {r : Reading} {p : α × β}
  {members : List (Except Fault String × Doc)} {names : List String} {items left : List Doc}

theorem named_cons : (cons field rest).named r members = .ok p ↔
    field.Holds r (Doc.under field.name members) p.1 ∧ rest.named r members = .ok p.2 := by
  obtain ⟨a, b⟩ := p
  constructor
  · intro h
    obtain ⟨found, hfound, h⟩ := bind_eq_ok.1 h
    cases found with
    | none =>
      obtain ⟨a', ha, h⟩ := bind_eq_ok.1 h
      obtain ⟨b', hb, h⟩ := bind_eq_ok.1 h
      cases h
      exact ⟨.inl ⟨findMember_eq_none.1 hfound, orMalformed_eq_ok.1 ha⟩, hb⟩
    | some d =>
      obtain ⟨a', ha, h⟩ := bind_eq_ok.1 h
      obtain ⟨b', hb, h⟩ := bind_eq_ok.1 h
      cases h
      exact ⟨.inr ⟨d, findMember_eq_some.1 hfound, ha⟩, hb⟩
  · rintro ⟨⟨hunder, ha⟩ | ⟨d, hunder, ha⟩, hb⟩
    · refine bind_eq_ok.2 ⟨none, findMember_eq_none.2 hunder, ?_⟩
      exact bind_eq_ok.2 ⟨a, orMalformed_eq_ok.2 ha, bind_eq_ok.2 ⟨b, hb, rfl⟩⟩
    · refine bind_eq_ok.2 ⟨some d, findMember_eq_some.2 hunder, ?_⟩
      exact bind_eq_ok.2 ⟨a, ha, bind_eq_ok.2 ⟨b, hb, rfl⟩⟩

theorem listed_cons : (cons field rest).listed r items = .ok (p, left) ↔
    items = [] ∧ field.omitted = some p.1 ∧ rest.listed r [] = .ok (p.2, left) ∨
      ∃ d more, items = d :: more ∧ field.decode r d = .ok p.1 ∧ rest.listed r more = .ok (p.2, left) := by
  obtain ⟨a, b⟩ := p
  cases items with
  | nil =>
    simp only [cons, bind_eq_ok, orMalformed_eq_ok]
    constructor
    · rintro ⟨a', ha, ⟨b', left'⟩, hb, h⟩
      cases h
      exact .inl ⟨trivial, ha, hb⟩
    · rintro (⟨-, ha, hb⟩ | ⟨d, more, h, -⟩)
      · exact ⟨a, ha, (b, left), hb, rfl⟩
      · cases h
  | cons d more =>
    simp only [cons, bind_eq_ok]
    constructor
    · rintro ⟨a', ha, ⟨b', left'⟩, hb, h⟩
      cases h
      exact .inr ⟨d, more, rfl, ha, hb⟩
    · rintro (⟨h, -⟩ | ⟨d', more', h, ha, hb⟩)
      · cases h
      · cases h
        exact ⟨a, ha, (b, left), hb, rfl⟩

/-- Of a name that is no field's, what stands under it is passed over. -/
theorem checkNames_eq_ok : checkNames false names members = .ok () ↔
    ∀ m ∈ members, ∃ name, m.1 = .ok name ∧ (name ∉ names → m.2.skip = .ok ()) := by
  induction members with
  | nil => simp [checkNames]
  | cons m rest ih =>
    obtain ⟨name, d⟩ := m
    rw [checkNames, bind_eq_ok, List.forall_mem_cons, ← ih]
    cases name with
    | error f => simp
    | ok name =>
      by_cases hname : names.contains name
      · simp_all
      · cases hskip : d.skip <;> simp_all [bind, Except.bind]

end Fields

namespace Form

variable {r : Reading} {d : Doc}

theorem decode_int64 {c : Int64} :
    int64.decode r d = .ok c ↔ ∃ n, d = .numeral n ∧ n.integer? = some c.toInt := by
  constructor
  · intro h
    simp only [int64, integer] at h
    split at h
    case h_1 n =>
      split at h
      case h_1 i hinteger =>
        split at h
        case isTrue hrange =>
          cases h
          exact ⟨n, rfl, by rw [hinteger, Int64.toInt_ofInt_of_le (by omega) (by omega)]⟩
        case isFalse => cases h
      case h_2 => cases h
    case h_2 => cases d <;> cases h
  · rintro ⟨n, rfl, hinteger⟩
    have hlow := c.le_toInt
    have hhigh := c.toInt_lt
    simp only [int64, integer, hinteger]
    rw [if_pos (by omega), Int64.ofInt_toInt]

theorem decode_text {s : String} : text.decode r d = .ok s ↔ d = .text s := by
  cases d <;> simp [text, Doc.text, Doc.unfit]

end Form

namespace EngineError

variable {members : List (Except Fault String × Doc)} {items : List Doc} {payload : Bytes} {e : EngineError} {d : Doc}

/-- How the members of an object are read, and the items of a list, that is all of a text. -/
def inside : Reading := ⟨126, .json⟩

/-- The members of an object are those of an error: a code that is an integer of 64 bits and a message, each once, and at
most one entry of data. All names are text; what stands under any other name is passed over. -/
structure Named (members : List (Except Fault String × Doc)) (e : EngineError) : Prop where
  names : ∀ m ∈ members, ∃ name, m.1 = .ok name ∧ (name ∉ ["code", "message", "data"] → m.2.skip = .ok ())
  code : ∃ n, Doc.under "code" members = [.numeral n] ∧ n.integer? = some e.code.toInt
  message : Doc.under "message" members = [.text e.message]
  data : Doc.under "data" members = [] ∧ e.data = .null ∨
    ∃ d, Doc.under "data" members = [d] ∧ Value.ofDoc inside d = .ok e.data

/-- The items of a list are those of an error: a code and a message, and perhaps data. -/
structure Listed (items : List Doc) (e : EngineError) : Prop where
  items : ∃ n, n.integer? = some e.code.toInt ∧
    (items = [.numeral n, .text e.message] ∧ e.data = .null ∨
      ∃ d, items = [.numeral n, .text e.message, d] ∧ Value.ofDoc inside d = .ok e.data)

/-- The fields of an error. -/
def fields : Fields (Int64 × String × Value × Unit) :=
  .cons (.required "code" .int64) <| .cons (.required "message" .text) <| .cons (.defaulted "data" .value .null) .done

theorem decode_record : form.decode (.ofLanguage .json) (.record members) = .ok e ↔ Named members e := by
  have hdecode : form.decode (.ofLanguage .json) (.record members) = .ok e ↔
      Fields.checkNames false ["code", "message", "data"] members = .ok () ∧
        fields.named inside members = .ok (e.code, e.message, e.data, ()) := by
    constructor
    · intro h
      obtain ⟨r, hr, h⟩ := bind_eq_ok.1 h
      cases hr
      obtain ⟨⟨code, message, data, ⟨⟩⟩, hfields, h⟩ := bind_eq_ok.1 h
      cases h
      obtain ⟨_, hnames, hnamed⟩ := bind_eq_ok.1 hfields
      exact ⟨hnames, hnamed⟩
    · rintro ⟨hnames, hnamed⟩
      refine bind_eq_ok.2 ⟨inside, rfl, bind_eq_ok.2 ⟨_, bind_eq_ok.2 ⟨(), hnames, hnamed⟩, rfl⟩⟩
  rw [hdecode, Fields.checkNames_eq_ok, fields, Fields.named_cons, Fields.named_cons, Fields.named_cons]
  constructor
  · rintro ⟨hnames, ⟨-, ⟨⟩⟩ | ⟨c, hcode, hc⟩, ⟨-, ⟨⟩⟩ | ⟨m, hmessage, hm⟩, hdata, -⟩
    obtain ⟨n, rfl, hn⟩ := Form.decode_int64 (r := inside) |>.1 hc
    obtain rfl := Form.decode_text (r := inside) |>.1 hm
    refine ⟨hnames, ⟨n, hcode, hn⟩, hmessage, hdata.imp (fun h => ⟨h.1, ?_⟩) id⟩
    exact (Option.some.inj h.2).symm
  · rintro ⟨hnames, ⟨n, hcode, hn⟩, hmessage, hdata⟩
    have hc : Form.int64.decode inside (.numeral n) = .ok e.code := Form.decode_int64.2 ⟨n, rfl, hn⟩
    have hm : Form.text.decode inside (.text e.message) = .ok e.message := Form.decode_text.2 rfl
    refine ⟨hnames, .inr ⟨_, hcode, hc⟩, .inr ⟨_, hmessage, hm⟩, hdata.imp (fun h => ⟨h.1, ?_⟩) id, rfl⟩
    exact congrArg some h.2.symm

theorem decode_list : form.decode (.ofLanguage .json) (.list items) = .ok e ↔ Listed items e := by
  have hdecode : form.decode (.ofLanguage .json) (.list items) = .ok e ↔
      fields.listed inside items = .ok ((e.code, e.message, e.data, ()), []) := by
    constructor
    · intro h
      obtain ⟨r, hr, h⟩ := bind_eq_ok.1 h
      cases hr
      obtain ⟨⟨code, message, data, ⟨⟩⟩, hfields, h⟩ := bind_eq_ok.1 h
      cases h
      obtain ⟨⟨p, left⟩, hlisted, h⟩ := bind_eq_ok.1 hfields
      dsimp only at h
      split at h
      case isTrue hleft =>
        cases h
        have hnone : left = [] := hleft.elim List.isEmpty_iff.1 nofun
        exact hnone ▸ hlisted
      case isFalse => cases h
    · intro hlisted
      exact bind_eq_ok.2 ⟨inside, rfl, bind_eq_ok.2 ⟨_, bind_eq_ok.2 ⟨_, hlisted, rfl⟩, rfl⟩⟩
  rw [hdecode, fields, Fields.listed_cons]
  obtain ⟨code, message, data⟩ := e
  constructor
  · rintro (⟨-, ⟨⟩, -⟩ | ⟨c, afterCode, rfl, hc, hafterCode⟩)
    obtain ⟨n, rfl, hn⟩ := Form.decode_int64 (r := inside) |>.1 hc
    obtain ⟨-, ⟨⟩, -⟩ | ⟨m, afterMessage, rfl, hm, hafterMessage⟩ := Fields.listed_cons.1 hafterCode
    obtain rfl := Form.decode_text (r := inside) |>.1 hm
    obtain ⟨rfl, hdata, -⟩ | ⟨d, afterData, rfl, hdata, hdone⟩ := Fields.listed_cons.1 hafterMessage
    · exact ⟨n, hn, .inl ⟨rfl, (Option.some.inj hdata).symm⟩⟩
    · cases hdone
      exact ⟨n, hn, .inr ⟨d, rfl, hdata⟩⟩
  · rintro ⟨n, hn, hitems⟩
    have hc : Form.int64.decode inside (.numeral n) = .ok code := Form.decode_int64.2 ⟨n, rfl, hn⟩
    have hm : Form.text.decode inside (.text message) = .ok message := Form.decode_text.2 rfl
    obtain ⟨rfl, rfl⟩ | ⟨d, rfl, hd⟩ := hitems
    · have hafterMessage : (Fields.cons (.defaulted "data" .value .null) .done).listed inside [] =
          .ok ((Value.null, ()), []) := Fields.listed_cons.2 (.inl ⟨rfl, rfl, rfl⟩)
      exact .inr ⟨_, _, rfl, hc, Fields.listed_cons.2 (.inr ⟨_, _, rfl, hm, hafterMessage⟩)⟩
    · have hafterMessage : (Fields.cons (.defaulted "data" .value .null) .done).listed inside [d] =
          .ok ((data, ()), []) := Fields.listed_cons.2 (.inr ⟨d, [], rfl, hd, rfl⟩)
      exact .inr ⟨_, _, rfl, hc, Fields.listed_cons.2 (.inr ⟨_, _, rfl, hm, hafterMessage⟩)⟩

/-- A payload is the JSON text of a document, with nothing but blank space after it. -/
def Spells (payload : Bytes) (d : Doc) : Prop := Json.Text.ofBytes payload = ⟨d, true⟩

/-- Only objects and lists are read as errors. -/
theorem read_eq_ok : form.read payload = .ok e ↔
    (∃ members, Spells payload (.record members) ∧ Named members e) ∨
      ∃ items, Spells payload (.list items) ∧ Listed items e := by
  rw [Form.read_eq_ok]
  constructor
  · rintro ⟨d, hspells, h⟩
    cases d with
    | record members => exact .inl ⟨members, hspells, decode_record.1 h⟩
    | list items => exact .inr ⟨items, hspells, decode_list.1 h⟩
    | null | bool | numeral | double | string | gap => cases h
  · rintro (⟨members, hspells, h⟩ | ⟨items, hspells, h⟩)
    · exact ⟨_, hspells, decode_record.2 h⟩
    · exact ⟨_, hspells, decode_list.2 h⟩

end EngineError

namespace Json

open Utf8

/-- A document that is an object or a list. -/
inductive Compound : Doc → Prop where
  | record (members : List (Except Fault String × Doc)) : Compound (.record members)
  | list (items : List Doc) : Compound (.list items)

theorem not_compound_ofLiteral {d : Doc} (hd : ¬Compound d) (taken : Except Fault (List Piece)) :
    ¬Compound (ofLiteral d taken).1 := by
  cases taken with
  | error f => exact nofun
  | ok rest => exact hd

theorem not_compound_ofWord {α : Type} {build : α → Doc} (hbuild : ∀ a, ¬Compound (build a))
    (taken : Except Fault (α × List Piece)) : ¬Compound (ofWord build taken).1 := by
  cases taken with
  | error f => exact nofun
  | ok word => exact hbuild word.1

/-- A text of an object or a list begins with its bracket, after blank space. -/
theorem bracket_of_compound {n : Nat} {ps : List Piece} (h : Compound (value n ps).1) :
    ∃ rest, skipBlank ps = .char '{' :: rest ∨ skipBlank ps = .char '[' :: rest := by
  cases n with
  | zero => cases h
  | succ n =>
    rw [value] at h
    split at h
    case h_1 | h_9 => cases h
    case h_2 | h_3 | h_4 => exact absurd h (not_compound_ofLiteral (by rintro ⟨⟩) _)
    case h_5 => exact absurd h (not_compound_ofWord (by rintro _ ⟨⟩) _)
    case h_6 rest hbracket => exact ⟨rest, .inr hbracket⟩
    case h_7 rest hbracket => exact ⟨rest, .inl hbracket⟩
    case h_8 =>
      split at h
      · exact absurd h (not_compound_ofWord (by rintro _ ⟨⟩) _)
      · cases h

end Json

namespace EngineError

variable {payload : Bytes} {e : EngineError}

/-- What does not begin with a bracket reports no error. -/
theorem bracket_of_read (h : form.read payload = .ok e) :
    ∃ rest, Json.skipBlank (Utf8.pieces payload) = .char '{' :: rest ∨
      Json.skipBlank (Utf8.pieces payload) = .char '[' :: rest := by
  have hroot : (Json.Text.ofBytes payload).root =
      (Json.value (2 * (Utf8.pieces payload).length + 1) (Utf8.pieces payload)).1 := by
    unfold Json.Text.ofBytes
    dsimp only
    split <;> simp [*]
  refine Json.bracket_of_compound (n := 2 * (Utf8.pieces payload).length + 1) ?_
  rw [← hroot]
  obtain ⟨members, hspells, -⟩ | ⟨items, hspells, -⟩ := read_eq_ok.1 h
  · rw [hspells]
    exact .record members
  · rw [hspells]
    exact .list items

/-- A payload that reports no error is a message of its own. -/
def plain (payload : Bytes) : EngineError := { code := 0, message := Utf8.lossy payload, data := .null }

theorem ofPayload_of_read (h : form.read payload = .ok e) : ofPayload payload = e := by
  rw [ofPayload, h]

theorem ofPayload_of_not_read (h : ∀ e, form.read payload ≠ .ok e) : ofPayload payload = plain payload := by
  unfold ofPayload
  split
  case h_1 e he => exact absurd he (h e)
  case h_2 => rfl

end EngineError

end Switchboard
