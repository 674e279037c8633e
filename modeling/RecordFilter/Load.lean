import RecordFilter.Compile
import RecordFilter.Json.Decode
import RecordFilter.Json.Encode

/-!
# Loading rule sets

A rule set comes as a text, as a stream of bytes, or as a file.  A stream is decoded as it is, and its
strings are checked one by one (`RuleSet.ofBytes`).  In a text there is nothing to check, and what a
file holds must be text before it is decoded.  `Predicate.ofJson` decodes a text and compiles the rule
set in it.
-/

namespace RecordFilter

open Json

/-- Why a rule set cannot be loaded or compiled. -/
inductive LoadError
  | fileNotFound
  | fileNotText
  | json (fault : Fault)
  | compile (error : CompileError)
deriving DecidableEq

/-- The rule set that a text denotes. -/
def RuleSet.ofJson [Dialect] (text : String) : Except Fault RuleSet :=
  @ofBytes _ .unchecked (Text.utf8 text)

/-- The rule set in a file; `contents` are the bytes of the file, if it exists. -/
def RuleSet.ofFile [Dialect] (contents : Option (List UInt8)) : Except LoadError RuleSet :=
  match contents with
  | none => .error .fileNotFound
  | some bytes =>
    match Text.ofUtf8? bytes with
    | none => .error .fileNotText
    | some text => (ofJson text).mapError .json

/-- The predicate of the rule set that a text denotes. -/
def Predicate.ofJson [Dialect] (family : Family) (text : String) : Except LoadError Predicate :=
  match RuleSet.ofJson text with
  | .error fault => .error (.json fault)
  | .ok rules => (rules.compile {} family).mapError .compile

end RecordFilter
