import SafeCalls.Extraction.Model
import SafeCalls.Extraction.Marker
import SafeCalls.Symbol.Key

namespace SafeCalls

/-!
# Registrations in a configuration method

A method registers members as safe in two ways. A call of the entry point whose only argument is a
lambda registers the member that the lambda's body refers to. A method that carries the trust-all
marker registers every member that it calls. In both cases only invocations count that are whole
statements of the method's own block.
-/

inductive CallTrust where
  | explicitOnly
  | trustAllCalls
  deriving DecidableEq, Repr

namespace CallTrust

def name : CallTrust → String
  | explicitOnly => "explicit_only"
  | trustAllCalls => "trust_all_calls"

end CallTrust

/-- The conventions by which registrations are recognised. -/
structure Interpreter where
  entryPoint : String
  isMarker : Attribute → Bool

namespace Invocation

/-- The body of the only argument, if that argument is a lambda that consists of an expression. -/
def lambdaBody? (call : Invocation) : Option Expression :=
  match call.arguments with
  | [⟨_, _, .lambda function⟩] => function.bodyExpression?
  | _ => none

end Invocation

namespace Interpreter

open Watched

/-- The expression that an invocation registers. -/
def target? (i : Interpreter) (model : SemanticModel) (call : Invocation) : Option Expression :=
  match model.symbolAt call.id with
  | some invoked => if invoked.name = i.entryPoint then call.lambdaBody? else none
  | none => none

/-- The key of the member that an expression refers to. -/
def keyAt? (model : SemanticModel) (id : NodeId) : Option CanonicalKey :=
  (model.symbolAt id).bind Symbol.canonicalKey?

/-- The key that an invocation registers by calling the entry point. -/
def explicitKey? (i : Interpreter) (model : SemanticModel) (call : Invocation) :
    Consulted (Option CanonicalKey) :=
  match i.target? model call with
  | some body => ⟨keyAt? model body.id, 2⟩
  | none => ⟨none, 1⟩

/-- The key that an invocation registers in a method with the marker. -/
def trustedKey? (model : SemanticModel) (call : Invocation) : Consulted (Option CanonicalKey) :=
  ⟨keyAt? model call.id, 1⟩

/-- The keys that invocations yield one after another, with a poll before each. -/
def collect (key? : Invocation → Consulted (Option CanonicalKey)) :
    List Invocation → Watched (List CanonicalKey)
  | [] => pure []
  | call :: more => do
      poll
      let key ← consult (key? call)
      let keys ← collect key? more
      pure (key.toList ++ keys)

def explicitKeys (i : Interpreter) (model : SemanticModel) (body : Block) :
    Watched (List CanonicalKey) :=
  collect (i.explicitKey? model) body.invocations

def trustedKeys (model : SemanticModel) (body : Block) : Watched (List CanonicalKey) :=
  collect (trustedKey? model) body.invocations

/-- Whether the symbol that a method declares carries the marker. -/
def trust (i : Interpreter) (model : SemanticModel) (m : MethodDeclaration) :
    Consulted CallTrust :=
  let isMarked := (model.declaredAt m.id).any fun symbol => symbol.attributes.any i.isMarker
  ⟨if isMarked then .trustAllCalls else .explicitOnly, 1⟩

/-- All keys that a method registers, with repeats. -/
def keys (i : Interpreter) (model : SemanticModel) (m : MethodDeclaration) :
    Watched (List CanonicalKey) :=
  match m.body with
  | none => pure []
  | some body => do
      let explicit ← i.explicitKeys model body
      match ← consult (i.trust model m) with
      | .explicitOnly => pure explicit
      | .trustAllCalls => do
          let trusted ← trustedKeys model body
          pure (explicit ++ trusted)

end Interpreter

end SafeCalls
