import ReactiveView.Failure
import ReactiveView.Text.Base36

/-!
# Binding ids

Every render that writes a binding attribute draws a new id.  Sequential ids are reproducible;
random ones come from a stream of 64-bit words; a listed source hands out given ids and fails where
the list has a gap or ends.
-/

namespace ReactiveView

/-- An endless stream of random words. -/
abbrev Entropy := Nat → UInt64

namespace Entropy

/-- The stream behind its first word. -/
def tail (e : Entropy) : Entropy := fun i => e (i + 1)

/-- Mixes the bits of a word; different words stay different. -/
def mix (x : UInt64) : UInt64 :=
  let x := (x ^^^ (x >>> 30)) * 0xbf58476d1ce4e5b9
  let x := (x ^^^ (x >>> 27)) * 0x94d049bb133111eb
  x ^^^ (x >>> 31)

/-- The stream grown from a seed: the mixed multiples of an odd step. -/
def ofSeed (seed : UInt64) : Entropy := fun i =>
  mix (seed + UInt64.ofNat (i + 1) * 0x9e3779b97f4a7c15)

end Entropy

/-- Where binding ids come from. -/
inductive IdSource where
  | random
  -- The stem followed by a base-36 counter.
  | sequential (stem : String) (next : Nat)
  -- These ids in turn; a gap fails and is used up by the call.
  | listed (ids : List (Option String))
  deriving DecidableEq, Repr

namespace IdSource

/-- The sequential source with this stem, before its first id. -/
def startingAt (stem : String) : IdSource := sequential stem 1

/-- The next id, with the source and the stream after the call. -/
def draw (s : IdSource) (e : Entropy) : Except EngineError String × IdSource × Entropy :=
  match s with
  | random => (.ok (Text.Base36.encode (e 0).toNat), random, e.tail)
  | sequential stem next =>
    (.ok (stem ++ Text.Base36.encode next), sequential stem (next + 1), e)
  | listed (some id :: rest) => (.ok id, listed rest, e)
  | listed (none :: rest) => (.error (.invalidConfig "no id"), listed rest, e)
  | listed [] => (.error (.invalidConfig "no id"), listed [], e)

/-- The ids of the first `n` calls, as long as none fails. -/
def firstIds : (n : Nat) → IdSource → Entropy → List String
  | 0, _, _ => []
  | n + 1, s, e =>
    match s.draw e with
    | (.ok id, s, e) => id :: firstIds n s e
    | (.error _, _, _) => []

/-- Whether a text has the form of a random id: 1 to 13 base-36 digits. -/
def isRandomForm (id : String) : Bool :=
  let cs := id.toList
  1 ≤ cs.length && cs.length ≤ 13 && cs.all fun c => (Text.Base36.digitValue? c).isSome

end IdSource

end ReactiveView
