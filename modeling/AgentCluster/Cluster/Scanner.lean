import AgentCluster.Library.Leftmost
import AgentCluster.Python.Arithmetic
import AgentCluster.Python.JsonRoundTrip

/-!
# The scanner over any decoder

`_json_objects_in` with the decoder as a parameter: all the loop relies on is that a decoded value
ends behind its start (`Decoder`). The loop then ends within as many rounds as the text has
characters, and what it returns is the leftmost greedy choice among the JSON objects that decode at
an opening brace (`Decoder.jsonObjects_leftmost`). The program runs it with the decoder of `json`
(`jsonDecoder`).
-/

set_option autoImplicit false

namespace AgentCluster.Cluster

open Python Library

/-- A decoder: the value at an index and the index where it ends, or an exception. -/
structure Decoder where
  rawDecode : List Char → Nat → Except Exception (Value × Nat)
  advances : ∀ text index v stop, rawDecode text index = .ok (v, stop) → index < stop

namespace Decoder

variable (decoder : Decoder) (text : List Char)

/-- The loop of `_json_objects_in`: `index` is the next opening brace, `found` the objects so far. A
`ValueError` of the decoder is caught. Without fuel for another round there is no outcome. -/
def jsonObjectsLoop : Nat → Option Nat → List Dict → Option (Except Exception (List Dict))
  | _, none, found => some (.ok found)
  | 0, some _, _ => none
  | n + 1, some index, found =>
      match decoder.rawDecode text index with
      | .error e =>
          if e.kind = .valueError then jsonObjectsLoop n (find text '{' (index + 1)) found
          else some (.error e)
      | .ok (.dict value, stop) => jsonObjectsLoop n (find text '{' stop) (found ++ [value])
      | .ok _ => jsonObjectsLoop n (find text '{' (index + 1)) found

/-- The spans `[start, stop)` that a scan of the text takes: at each start there is an opening brace
where the object decodes up to the stop, no span begins before the one in front of it has ended, and
an opening brace where an object decodes is in one of them. -/
structure Takes (spans : List (Span Nat Dict)) : Prop where
  decoded : ∀ span ∈ spans, text[span.start]? = some '{' ∧
    decoder.rawDecode text span.start = .ok (.dict span.item, span.stop)
  ordered : spans.Pairwise fun a b => a.start < b.start ∧ a.stop ≤ b.start
  covers : ∀ index value stop, text[index]? = some '{' →
    decoder.rawDecode text index = .ok (.dict value, stop) →
      ∃ span ∈ spans, span.start ≤ index ∧ index < span.stop

/-- The object that decodes at an opening brace. -/
def objectAt (index : Nat) : Option (Dict × Nat) :=
  if text[index]? = some '{' then
    match decoder.rawDecode text index with
    | .ok (.dict value, stop) => some (value, stop)
    | _ => none
  else none

variable {decoder text}

theorem objectAt_eq_some {index stop : Nat} {value : Dict} :
    decoder.objectAt text index = some (value, stop) ↔
      text[index]? = some '{' ∧ decoder.rawDecode text index = .ok (.dict value, stop) := by
  rw [objectAt]
  by_cases hbrace : text[index]? = some '{'
  · rw [if_pos hbrace, and_iff_right hbrace]
    cases hdecode : decoder.rawDecode text index with
    | error e => exact iff_of_false nofun nofun
    | ok p =>
      obtain ⟨v, stop'⟩ := p
      cases v <;> simp
  · rw [if_neg hbrace]
    exact iff_of_false nofun fun h => hbrace h.1

theorem objectAt_advances : Advances (decoder.objectAt text) := by
  intro index value stop h
  exact decoder.advances _ _ _ _ (objectAt_eq_some.1 h).2

theorem takes_iff {spans : List (Span Nat Dict)} :
    decoder.Takes text spans ↔ IsLeftmost (decoder.objectAt text) 0 spans := by
  constructor
  · intro h
    constructor
    · exact fun span hspan => objectAt_eq_some.2 (h.decoded span hspan)
    · exact fun span _ => Nat.zero_le _
    · exact h.ordered
    · intro index value stop _ hobject
      obtain ⟨hbrace, hdecode⟩ := objectAt_eq_some.1 hobject
      exact h.covers index value stop hbrace hdecode
  · intro h
    constructor
    · exact fun span hspan => objectAt_eq_some.1 (h.items span hspan)
    · exact h.apart
    · intro index value stop hbrace hdecode
      exact h.covers index value stop (Nat.zero_le _) (objectAt_eq_some.2 ⟨hbrace, hdecode⟩)

/-! ## The loop -/

/-- More fuel changes no outcome. -/
theorem jsonObjectsLoop_succ {n : Nat} {index : Option Nat} {found : List Dict}
    {outcome : Except Exception (List Dict)}
    (h : decoder.jsonObjectsLoop text n index found = some outcome) :
    decoder.jsonObjectsLoop text (n + 1) index found = some outcome := by
  induction n generalizing index found with
  | zero =>
    cases index with
    | none => exact h
    | some index => cases h
  | succ n ih =>
    cases index with
    | none => exact h
    | some index =>
      rw [jsonObjectsLoop] at h ⊢
      cases hdecode : decoder.rawDecode text index with
      | error e =>
        rw [hdecode] at h
        simp only at h ⊢
        split at h
        · next hcaught =>
          rw [if_pos hcaught]
          exact ih h
        · next hraised =>
          rw [if_neg hraised]
          exact h
      | ok p =>
        obtain ⟨v, stop⟩ := p
        rw [hdecode] at h
        cases v with
        | dict value => exact ih h
        | _ => exact ih h

theorem jsonObjectsLoop_mono {n m : Nat} {index : Option Nat} {found : List Dict}
    {outcome : Except Exception (List Dict)} (hle : n ≤ m)
    (h : decoder.jsonObjectsLoop text n index found = some outcome) :
    decoder.jsonObjectsLoop text m index found = some outcome := by
  induction hle with
  | refl => exact h
  | step _ ih => exact jsonObjectsLoop_succ ih

/-- How the loop ends from a position on: with what reading from the left takes, or with what the
decoder raises at a brace other than a `ValueError`. -/
inductive Ends (decoder : Decoder) (text : List Char) (start : Nat) (found : List Dict) :
    Except Exception (List Dict) → Prop where
  | returned {spans : List (Span Nat Dict)} : IsLeftmost (decoder.objectAt text) start spans →
      Ends decoder text start found (.ok (found ++ spans.map Span.item))
  | raised {e : Exception} {index : Nat} : text[index]? = some '{' →
      decoder.rawDecode text index = .error e → e.kind ≠ .valueError →
        Ends decoder text start found (.error e)

theorem Ends.skip {start mid : Nat} {found : List Dict} {outcome : Except Exception (List Dict)}
    (hle : start ≤ mid) (hnone : ∀ i, start ≤ i → i < mid → decoder.objectAt text i = none)
    (h : Ends decoder text mid found outcome) : Ends decoder text start found outcome := by
  cases h with
  | returned hspans => exact .returned (hspans.skip hle hnone)
  | raised hbrace hdecode hkind => exact .raised hbrace hdecode hkind

theorem Ends.cons {index stop : Nat} {value : Dict} {found : List Dict}
    {outcome : Except Exception (List Dict)}
    (hobject : decoder.objectAt text index = some (value, stop))
    (h : Ends decoder text stop (found ++ [value]) outcome) :
    Ends decoder text index found outcome := by
  cases h with
  | returned hspans =>
    rw [List.append_assoc]
    exact .returned (hspans.cons objectAt_advances hobject)
  | raised hbrace hdecode hkind => exact .raised hbrace hdecode hkind

@[simp]
theorem jsonObjectsLoop_none (n : Nat) (found : List Dict) :
    decoder.jsonObjectsLoop text n none found = some (.ok found) := by
  cases n <;> rfl

theorem ends_of_find_eq_none {n start : Nat} {found : List Dict}
    (hfind : find text '{' start = none) :
    ∃ outcome, decoder.jsonObjectsLoop text n (find text '{' start) found = some outcome ∧
      Ends decoder text start found outcome := by
  refine ⟨.ok found, by rw [hfind, jsonObjectsLoop_none], ?_⟩
  have hnil : IsLeftmost (decoder.objectAt text) start [] :=
    .nil fun i hi => if_neg (getElem?_ne_of_find_eq_none hfind hi)
  have hends : Ends decoder text start found (.ok (found ++ [].map Span.item)) := .returned hnil
  rwa [List.map_nil, List.append_nil] at hends

/-- With as much fuel as there are characters left, the loop ends. -/
theorem jsonObjectsLoop_ends (decoder : Decoder) (text : List Char) (n start : Nat)
    (found : List Dict) (hn : text.length ≤ start + n) :
    ∃ outcome, decoder.jsonObjectsLoop text n (find text '{' start) found = some outcome ∧
      Ends decoder text start found outcome := by
  -- on the fuel: a round leaves fewer characters, whichever way it advances
  induction n generalizing start found with
  | zero =>
    cases hfind : find text '{' start with
    | none => simpa only [hfind] using ends_of_find_eq_none hfind
    | some index =>
      obtain ⟨hle, hbrace, -⟩ := first_of_find_eq_some hfind
      have hlt := (List.getElem?_eq_some_iff.1 hbrace).1
      omega
  | succ n ih =>
    cases hfind : find text '{' start with
    | none => simpa only [hfind] using ends_of_find_eq_none hfind
    | some index =>
      obtain ⟨hle, hbrace, hfirst⟩ := first_of_find_eq_some hfind
      have hskipped : ∀ i, start ≤ i → i < index → decoder.objectAt text i = none :=
        fun i hi hlt => if_neg (hfirst i hi hlt)
      -- Where no object decodes, the loop goes on one character further.
      have hpass (hobject : decoder.objectAt text index = none) :
          ∃ outcome, decoder.jsonObjectsLoop text n (find text '{' (index + 1)) found = some outcome ∧
            Ends decoder text start found outcome := by
        obtain ⟨outcome, hloop, hends⟩ := ih (index + 1) found (by omega)
        refine ⟨outcome, hloop, hends.skip (by omega) ?_⟩
        intro i hi hlt
        rcases Nat.lt_succ_iff_lt_or_eq.1 hlt with hlt | rfl
        · exact hskipped i hi hlt
        · exact hobject
      have hnot (hdecode : ∀ value stop, decoder.rawDecode text index ≠ .ok (.dict value, stop)) :
          decoder.objectAt text index = none := by
        rw [Option.eq_none_iff_forall_ne_some]
        rintro ⟨value, stop⟩ hobject
        exact hdecode value stop (objectAt_eq_some.1 hobject).2
      rw [jsonObjectsLoop]
      cases hdecode : decoder.rawDecode text index with
      | error e =>
        by_cases hcaught : e.kind = .valueError
        · simp only [if_pos hcaught]
          exact hpass (hnot fun value stop h => by rw [hdecode] at h; cases h)
        · simp only [if_neg hcaught]
          exact ⟨_, rfl, .raised hbrace hdecode hcaught⟩
      | ok p =>
        obtain ⟨v, stop⟩ := p
        cases v with
        | dict value =>
          -- An object: the loop goes on at its end, behind the brace.
          have hstop := decoder.advances _ _ _ _ hdecode
          obtain ⟨outcome, hloop, hends⟩ := ih stop (found ++ [value]) (by omega)
          refine ⟨outcome, hloop, Ends.skip hle hskipped ?_⟩
          exact hends.cons (objectAt_eq_some.2 ⟨hbrace, hdecode⟩)
        | _ => exact hpass (hnot fun value stop h => by rw [hdecode] at h; cases h)

/-! ## The scan -/

/-- The scan ends for every text, within as many rounds as the text has characters. Unless the
decoder raises something other than a `ValueError` at one of the braces, it returns the objects of
the one list of spans that reading from the left takes. -/
theorem jsonObjects_leftmost (decoder : Decoder) (text : String) :
    ∃ outcome,
      (∀ n, text.length ≤ n →
        decoder.jsonObjectsLoop text.toList n (find text.toList '{' 0) [] = some outcome) ∧
      ((∀ index e, decoder.rawDecode text.toList index = .error e → e.kind = .valueError) →
        ∃ found, outcome = .ok found) ∧
      (∀ e, outcome = .error e → e.kind ≠ .valueError ∧
        ∃ index : Nat, text.toList[index]? = some '{' ∧
          decoder.rawDecode text.toList index = .error e) ∧
      ∀ found, outcome = .ok found →
        ∃ spans, (decoder.Takes text.toList spans ∧ found = spans.map Span.item) ∧
          ∀ spans', decoder.Takes text.toList spans' → spans' = spans := by
  obtain ⟨outcome, hloop, hends⟩ := jsonObjectsLoop_ends decoder text.toList text.length 0 []
    (by rw [String.length_toList, Nat.zero_add])
  refine ⟨outcome, fun n hn => jsonObjectsLoop_mono hn hloop, ?_⟩
  cases hends with
  | @returned spans hspans =>
    refine ⟨fun _ => ⟨_, rfl⟩, nofun, ?_⟩
    rintro found ⟨⟩
    refine ⟨spans, ⟨takes_iff.2 hspans, rfl⟩, ?_⟩
    exact fun spans' hspans' => (takes_iff.1 hspans').unique objectAt_advances hspans
  | @raised e index hbrace hdecode hkind =>
    refine ⟨fun hall => absurd (hall index e hdecode) hkind, ?_, nofun⟩
    rintro _ ⟨⟩
    exact ⟨hkind, index, hbrace, hdecode⟩

end Decoder

/-! ## The decoder of `json` -/

theorem rawDecode_advances {text : List Char} {index stop : Nat} {v : Value}
    (h : Json.rawDecode text index = some (v, stop)) : index < stop := by
  rw [Json.rawDecode, Option.map_eq_some_iff] at h
  obtain ⟨⟨v', rest⟩, hdecode, heq⟩ := h
  cases heq
  have hlt := (Json.decode_consumes hdecode).length_lt
  rw [List.length_drop] at hlt
  omega

/-- `json.JSONDecoder()`. The text of its error is left out: the loop catches it. -/
def jsonDecoder : Decoder where
  rawDecode text index :=
    match Json.rawDecode text index with
    | some p => .ok p
    | none => .error ⟨.valueError, ""⟩
  advances text index v stop h := by
    cases hdecode : Json.rawDecode text index with
    | none =>
      rw [hdecode] at h
      cases h
    | some p =>
      rw [hdecode] at h
      cases h
      exact rawDecode_advances hdecode

section Decode

variable {text : List Char} {index : Nat}

theorem jsonDecoder_of_none (h : Json.rawDecode text index = none) :
    jsonDecoder.rawDecode text index = .error ⟨.valueError, ""⟩ := by
  simp only [jsonDecoder, h]

theorem jsonDecoder_of_some {p : Value × Nat} (h : Json.rawDecode text index = some p) :
    jsonDecoder.rawDecode text index = .ok p := by
  simp only [jsonDecoder, h]

end Decode

end AgentCluster.Cluster
