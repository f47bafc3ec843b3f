import ReactiveView.Demo.Card

/-!
# Command line

The demo as a program: it reads its environment and a random seed, and writes what the run shows.
-/

namespace ReactiveView

/-- The variables that the demo consults. -/
def demoVariables : List String :=
  ["RAY_DEMO_ROOT_ID", "RAY_DEMO_IDS", "RAY_DEMO_CLICKS", "RAY_DEMO_JSON", "RAYACTIVE_ROOT_ID",
    "RAYACTIVE_ID_STRATEGY", "RAYACTIVE_ID_PREFIX"]

/-- The word that these bytes make, the first byte counting least. -/
def wordOfBytes (bytes : ByteArray) : UInt64 :=
  bytes.toList.foldr (fun b w => w * 256 + b.toUInt64) 0

end ReactiveView

open ReactiveView in
/-- Runs the demo. -/
def main (args : List String) : IO UInt32 := do
  let values ← demoVariables.mapM fun name => return (name, ← IO.getEnv name)
  let seed ← IO.getRandomBytes 8
  let ending := Demo.run args (fun name => (values.lookup name).join)
    (Entropy.ofSeed (wordOfBytes seed))
  (← IO.getStdout).putStr ending.out
  (← IO.getStderr).putStr ending.err
  return UInt32.ofNat ending.code
