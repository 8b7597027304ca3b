import Formwork.Pattern.Class

/-!
# Text patterns

A field may demand that its text match a pattern. A pattern matches a text if some part of
the text belongs to it; anchors tie it to the ends. Matching follows all ways of
reading at once: `ends` sends a set of positions, from which the pattern may start, to the
set of positions at which it may stop. A repetition without an upper bound adds positions
until no new one appears, which happens within the length of the text.
-/

set_option autoImplicit false

namespace Formwork

namespace Pattern

/-- A set of characters. -/
inductive CharSet where
  | range (first last : Nat)
  | digit
  | word
  | blank
  | empty
  | complement (set : CharSet)
  | union (left right : CharSet)
  | intersection (left right : CharSet)
  | difference (left right : CharSet)
  | symmetricDifference (left right : CharSet)
  /-- The set with everything that equals one of its characters without regard to case. -/
  | caseless (set : CharSet)
deriving Repr

/-- Whether a set holds a code point. -/
def CharSet.holds : CharSet → Nat → Bool
  | .range first last, code => first ≤ code && code ≤ last
  | .digit, code => inRanges digitRanges code
  | .word, code => inRanges wordRanges code
  | .blank, code => Text.isBlank (Char.ofNat code)
  | .empty, _ => false
  | .complement set, code => !set.holds code
  | .union left right, code => left.holds code || right.holds code
  | .intersection left right, code => left.holds code && right.holds code
  | .difference left right, code => left.holds code && !right.holds code
  | .symmetricDifference left right, code => left.holds code != right.holds code
  | .caseless set, code => set.holds code || (variants code).any fun variant => set.holds variant

/-- A condition on a position between two characters. -/
inductive Anchor where
  | textStart
  | textEnd
  | lineStart
  | lineEnd
  | wordEdge
  | noWordEdge
  | wordStart
  | wordEnd
deriving DecidableEq, Repr

end Pattern

/-- A text pattern. -/
inductive Pattern where
  | empty
  | one (set : Pattern.CharSet)
  | anchor (condition : Pattern.Anchor)
  | sequence (first second : Pattern)
  | either (first second : Pattern)
  /-- At least `least` repetitions and at most `greatest`, if there is a greatest number. -/
  | repetition (body : Pattern) (least : Nat) (greatest : Option Nat)
deriving Repr

namespace Pattern

/-- Whether the character at a position is a word character. -/
def wordAt (subject : Array Char) (position : Nat) : Bool :=
  match subject[position]? with
  | some character => isWord character
  | none => false

/-- Whether the character in front of a position is a word character. -/
def wordBefore (subject : Array Char) (position : Nat) : Bool :=
  match position with
  | 0 => false
  | position + 1 => wordAt subject position

/-- Whether a condition holds at a position of a text. -/
def Anchor.holds (subject : Array Char) (position : Nat) : Anchor → Bool
  | .textStart => position == 0
  | .textEnd => position == subject.size
  | .lineStart => position == 0 || subject[position - 1]? == some '\n'
  | .lineEnd => position == subject.size || subject[position]? == some '\n'
  | .wordEdge => wordBefore subject position != wordAt subject position
  | .noWordEdge => wordBefore subject position == wordAt subject position
  | .wordStart => !wordBefore subject position && wordAt subject position
  | .wordEnd => wordBefore subject position && !wordAt subject position

/-- Adds the positions that are not there yet. -/
def addPositions (known : List Nat) (positions : List Nat) : List Nat :=
  positions.foldl (fun known position => if known.contains position then known else position :: known) known

/-- The positions reached in exactly `count` steps. -/
def stepsExactly (step : List Nat → List Nat) : Nat → List Nat → List Nat
  | 0, positions => positions
  | count + 1, positions => if positions.isEmpty then [] else stepsExactly step count (step positions)

/-- The positions reached in at most `count` steps: `known` are those reached so far, and
`latest` those of them that the last step added. -/
def closure (step : List Nat → List Nat) : Nat → List Nat → List Nat → List Nat
  | 0, known, _ => known
  | count + 1, known, latest =>
    let added := addPositions [] ((step latest).filter fun position => !known.contains position)
    if added.isEmpty then known else closure step count (added ++ known) added

/-- Where the pattern may stop when it starts at one of the given positions. -/
def ends (subject : Array Char) : Pattern → List Nat → List Nat
  | .empty, starts => starts
  | .one set, starts => starts.filterMap fun position =>
      match subject[position]? with
      | some character => if set.holds character.toNat then some (position + 1) else none
      | none => none
  | .anchor condition, starts => starts.filter fun position => condition.holds subject position
  | .sequence first second, starts => second.ends subject (first.ends subject starts)
  | .either first second, starts => addPositions (first.ends subject starts) (second.ends subject starts)
  | .repetition body least greatest, starts =>
    let required := addPositions [] (stepsExactly (body.ends subject) least starts)
    let more := match greatest with
      | some greatest => min (greatest - least) (subject.size + 1)
      | none => subject.size + 1
    closure (body.ends subject) more required required

/-- Whether some part of a text belongs to the pattern. -/
def isMatch (pattern : Pattern) (text : List Char) : Bool :=
  let subject := text.toArray
  !(pattern.ends subject (List.range (subject.size + 1))).isEmpty

end Pattern

end Formwork
