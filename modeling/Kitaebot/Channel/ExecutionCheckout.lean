import Kitaebot.Tools.Checkout

/-!
# Preparing an execution checkout

Preserve, then reset: leftovers of a turn that died are parked on a branch of
their own, then the checkout is fetched, put on the default branch and swept.
-/

namespace Kitaebot.Channel.ExecutionCheckout

open Agent Dialogue Tools Tools.Checkout

def recoveredPrefix : String := "kitaebot_recovered/"

/-- Park leftovers on a branch; its name, when anything was parked. -/
def parkLeftovers (epoch : ℕ) : Script (Option String) := do
  let (_, listed) ← runRead .status
  let dirty := Text.trim listed ≠ ""
  -- Only a detached HEAD strands commits.
  let (attached, _) ← runRead .symbolicRef
  let stranded ←
    if attached = 0 then pure false
    else do
      let (ancestor, _) ← runRead .isAncestor
      pure (ancestor != 0)
  if ¬ dirty ∧ stranded = false then pure none
  else
    let name := recoveredPrefix ++ toString epoch
    run (.branch name)
    if dirty then
      run .addAll
      run .resetCaches
      run .commit
      pure (some name)
    else pure (some name)

/-- Clone if needed, park leftovers, fetch, detach at the default branch, drop any
leftover files. -/
def prepareAt (destination : Destination) (epoch : ℕ) : Script (Option String) := do
  let ensured ← ensureCloned destination
  let parked ←
    match ensured with
    -- A fresh clone has nothing to lose.
    | .cloned => pure none
    | .existing => parkLeftovers epoch
  run .fetch
  run .checkoutBase
  run .clean
  .ask .warmDevshell fun _ => pure parked

end Kitaebot.Channel.ExecutionCheckout
