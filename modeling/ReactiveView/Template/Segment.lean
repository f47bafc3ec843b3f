/-!
# Template segments

A template is cut into literal text and placeholders.  A placeholder `{{key}}` begins at the
leftmost `{{` that has a `}}` after it on its own line, and ends at the first such `}}`; its key is
the raw text between the two.
-/

namespace ReactiveView

/-- One part of a template. -/
inductive Segment where
  -- Literal markup.
  | text (chars : String)
  -- A placeholder for the value of this key.
  | slot (key : String)
  deriving DecidableEq, Repr, Inhabited

namespace Segment

/-! ## 1. Placeholders -/

/-- The text before the first `}}`, if no line ends before it. -/
def keyBefore? : List Char → Option (List Char)
  | '}' :: '}' :: _ => some []
  | '\n' :: _ => none
  | c :: rest => (keyBefore? rest).map (c :: ·)
  | [] => none

/-- The key of the placeholder that `cs` begins with, if it begins with one. -/
def keyAt? : List Char → Option (List Char)
  | '{' :: '{' :: rest => keyBefore? rest
  | _ => none

/-! ## 2. Cutting the source -/

/-- A literal character or a whole placeholder. -/
inductive Piece where
  | char (c : Char)
  | slot (key : List Char)
  deriving DecidableEq, Repr

/-- The pieces of a source of which the first `skip` characters belong to a placeholder already
    taken.  A placeholder is four characters longer than its key. -/
def pieces : (skip : Nat) → List Char → List Piece
  | _, [] => []
  | skip + 1, _ :: rest => pieces skip rest
  | 0, c :: rest =>
    match keyAt? (c :: rest) with
    | some key => .slot key :: pieces (key.length + 3) rest
    | none => .char c :: pieces 0 rest

/-- Adds a literal character in front. -/
def pushChar (c : Char) : List (List Char ⊕ String) → List (List Char ⊕ String)
  | .inl cs :: rest => .inl (c :: cs) :: rest
  | parts => .inl [c] :: parts

/-- Joins neighbouring literal characters. -/
def joinPieces : List Piece → List (List Char ⊕ String)
  | [] => []
  | .char c :: rest => pushChar c (joinPieces rest)
  | .slot key :: rest => .inr (String.ofList key) :: joinPieces rest

/-- The segments of a source: no text is empty, and no two texts are neighbours. -/
def ofSource (source : String) : List Segment :=
  (joinPieces (pieces 0 source.toList)).map fun
    | .inl cs => text (String.ofList cs)
    | .inr key => slot key

/-! ## 3. Back to the source -/

/-- The source of a segment. -/
def source : Segment → List Char
  | text t => t.toList
  | slot key => '{' :: '{' :: key.toList ++ ['}', '}']

/-- The source of several segments. -/
def sources (segments : List Segment) : List Char := segments.flatMap source

/-- The keys of the placeholders, in order and with repeats. -/
def keys (segments : List Segment) : List String :=
  segments.filterMap fun
    | text _ => none
    | slot key => some key

end Segment

end ReactiveView
