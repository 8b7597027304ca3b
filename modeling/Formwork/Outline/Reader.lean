import Formwork.Outline
import Formwork.Outline.Token

/-!
# Outlines from tokens

The grammar of YAML over tokens. Nothing needs to be written for a value, a key or an item: a plain
empty scalar stands in its place. A list that is the value of a key may be indented as
deeply as the key itself; its items then have no start and no end of their own.

A text holds one document, possibly between marks, or none, which counts as an empty scalar.
-/

set_option autoImplicit false

namespace Formwork.Outline

/-- Whether a value ends before a token, so that it is empty: at the end of the tokens, or at one of
the given tokens. -/
def isEmptyBefore (stops : List Token) : List Token → Bool
  | [] => true
  | token :: _ => stops.contains token

/-- The tokens that end an empty item of a list. -/
def itemStops : List Token := [.item, .dedent]

/-- The tokens that end an empty item of a list that is indented like its key. -/
def flatItemStops : List Token := [.item, .key, .value, .dedent]

/-- The tokens that end an empty key or value of a map. -/
def entryStops : List Token := [.key, .value, .dedent]

mutual
/-- Reads a node. Inside brackets no list or map can be written by indentation, and only a value or
key of a map may be a list of items without a start. -/
def node? : Nat → (allowsIndented allowsFlat : Bool) → List Token → Option (Outline × List Token)
  | 0, _, _, _ => none
  | bound + 1, allowsIndented, allowsFlat, tokens =>
    match tokens with
    | .scalar text isPlain :: rest => some (.scalar text isPlain, rest)
    | .item :: _ =>
      if allowsFlat then (flatItems? bound tokens).map fun (items, rest) => (.list items, rest) else none
    | .openList :: rest => (bracketItems? bound true rest).map fun (items, rest) => (.list items, rest)
    | .openMap :: rest => (bracketEntries? bound true rest).map fun (entries, rest) => (.map entries, rest)
    | .listStart :: rest =>
      if allowsIndented then (items? bound rest).map fun (items, rest) => (.list items, rest) else none
    | .mapStart :: rest =>
      if allowsIndented then (entries? bound rest).map fun (entries, rest) => (.map entries, rest) else none
    | _ => none

/-- Reads a node by indentation that may be empty. -/
def optionalNode? : Nat → (stops : List Token) → (allowsFlat : Bool) → List Token → Option (Outline × List Token)
  | 0, _, _, _ => none
  | bound + 1, stops, allowsFlat, tokens =>
    if isEmptyBefore stops tokens then some (nothing, tokens) else node? bound true allowsFlat tokens

/-- Reads a node inside brackets that may be empty. -/
def bracketNode? : Nat → (stops : List Token) → List Token → Option (Outline × List Token)
  | 0, _, _ => none
  | bound + 1, stops, tokens =>
    if isEmptyBefore stops tokens then some (nothing, tokens) else node? bound false false tokens

/-- Reads the items of a list, up to its end. -/
def items? : Nat → List Token → Option (List Outline × List Token)
  | 0, _ => none
  | bound + 1, tokens =>
    match tokens with
    | .item :: rest => do
      let (first, behind) ← optionalNode? bound itemStops false rest
      let (others, final) ← items? bound behind
      return (first :: others, final)
    | .dedent :: rest => some ([], rest)
    | _ => none

/-- Reads the items of a list that is indented like its key. -/
def flatItems? : Nat → List Token → Option (List Outline × List Token)
  | 0, _ => none
  | bound + 1, tokens =>
    match tokens with
    | .item :: rest => do
      let (first, behind) ← optionalNode? bound flatItemStops false rest
      let (others, final) ← flatItems? bound behind
      return (first :: others, final)
    | _ => some ([], tokens)

/-- Reads the value behind a key, if there is one. -/
def entryValue? : Nat → List Token → Option (Outline × List Token)
  | 0, _ => none
  | bound + 1, tokens =>
    match tokens with
    | .value :: rest => optionalNode? bound entryStops true rest
    | _ => some (nothing, tokens)

/-- Reads the entries of a map, up to its end. -/
def entries? : Nat → List Token → Option (List (Outline × Outline) × List Token)
  | 0, _ => none
  | bound + 1, tokens =>
    match tokens with
    | .key :: rest => do
      let (key, behindKey) ← optionalNode? bound entryStops true rest
      let (value, behindValue) ← entryValue? bound behindKey
      let (others, final) ← entries? bound behindValue
      return ((key, value) :: others, final)
    | .dedent :: rest => some ([], rest)
    | _ => none

/-- Reads the items of a list in brackets, up to its end. An item may be a single entry of a map. -/
def bracketItems? : Nat → (isFirst : Bool) → List Token → Option (List Outline × List Token)
  | 0, _, _ => none
  | bound + 1, isFirst, tokens =>
    match tokens with
    | .closeList :: rest => some ([], rest)
    | _ =>
      let separated := match tokens with
        | .comma :: rest => if isFirst then some tokens else some rest
        | _ => if isFirst then some tokens else none
      match separated with
      | none => none
      | some (.closeList :: rest) => some ([], rest)
      | some (.key :: rest) => do
        let (key, behindKey) ← bracketNode? bound [.value, .comma, .closeList] rest
        let atValue := if isEmptyBefore [.value, .comma, .closeList] rest then behindKey.tail else behindKey
        let (value, behindValue) ← match atValue with
          | .value :: rest => bracketNode? bound [.comma, .closeList] rest
          | _ => some (nothing, atValue)
        let (others, final) ← bracketItems? bound false behindValue
        return (.map [(key, value)] :: others, final)
      | some rest => do
        let (first, behind) ← node? bound false false rest
        let (others, final) ← bracketItems? bound false behind
        return (first :: others, final)

/-- Reads the entries of a map in brackets, up to its end. A key may stand alone. -/
def bracketEntries? : Nat → (isFirst : Bool) → List Token → Option (List (Outline × Outline) × List Token)
  | 0, _, _ => none
  | bound + 1, isFirst, tokens =>
    match tokens with
    | .closeMap :: rest => some ([], rest)
    | _ =>
      let separated := match tokens with
        | .comma :: rest => if isFirst then some tokens else some rest
        | _ => if isFirst then some tokens else none
      match separated with
      | none => none
      | some (.closeMap :: rest) => some ([], rest)
      | some (.key :: rest) => do
        let (key, behindKey) ← bracketNode? bound [.value, .comma, .closeMap] rest
        let (value, behindValue) ← match behindKey with
          | .value :: rest => bracketNode? bound [.comma, .closeMap] rest
          | _ => some (nothing, behindKey)
        let (others, final) ← bracketEntries? bound false behindValue
        return ((key, value) :: others, final)
      | some rest => do
        let (key, behind) ← node? bound false false rest
        let (others, final) ← bracketEntries? bound false behind
        return ((key, nothing) :: others, final)
end

/-- Reads the content of a document, which may be empty. -/
def content? (tokens : List Token) : Option (Outline × List Token) :=
  if isEmptyBefore [.documentStart, .documentEnd] tokens then some (nothing, tokens)
  else node? (3 * tokens.length + 3) true false tokens

/-- The document of some tokens. -/
def ofTokens? (tokens : List Token) : Option Outline := do
  let (outline, rest) ← match tokens with
    | [] => some (nothing, [])
    | .documentStart :: rest => content? rest
    | _ => node? (3 * tokens.length + 3) true false tokens
  if rest.all (· == Token.documentEnd) then some outline else none

/-- The outline of a text. -/
def read? (text : String) : Option Outline := (tokens? text).bind ofTokens?

end Formwork.Outline
