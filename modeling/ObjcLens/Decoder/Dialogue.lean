import ObjcLens.ObjcType.Decode

/-!
# Asking a decoder

A reader of records does not decode the texts that it finds. It asks a decoder, which may remember
what it was asked before. A `Dialogue` is a computation of this kind: either it is done, or it asks
for one text and goes on with the answer. `Dialogue.run` is the dialogue with a decoder that
remembers nothing.
-/

namespace ObjcLens

/-- A text that is to be decoded, as a type or as a method signature. -/
inductive DecodeRequest where
  | type (encoding : Text)
  | method (encoding : Text)
deriving DecidableEq, Repr

namespace DecodeRequest

/-- What a request is answered with. -/
def Answer : DecodeRequest → Type
  | type _ => ObjcType
  | method _ => MethodType

/-- The decoded text. -/
def decode : (request : DecodeRequest) → request.Answer
  | type encoding => ObjcType.parse encoding
  | method encoding => MethodType.decode encoding

end DecodeRequest

/-- A computation that asks for texts to be decoded. -/
inductive Dialogue (α : Type) where
  | done (result : α)
  | ask (request : DecodeRequest) (next : request.Answer → Dialogue α)

namespace Dialogue

variable {α β : Type}

/-- The dialogue that goes on with the result of another one. -/
def bind : Dialogue α → (α → Dialogue β) → Dialogue β
  | done result, f => f result
  | ask request next, f => ask request fun answer => (next answer).bind f

instance : Monad Dialogue where
  pure := done
  bind := bind

instance : LawfulMonad Dialogue := by
  refine LawfulMonad.mk' Dialogue (fun d => ?_) (fun _ _ => rfl) fun d f g => ?_
  · induction d with
    | done _ => rfl
    | ask request next ih => exact congrArg (ask request) (funext ih)
  · induction d with
    | done _ => rfl
    | ask request next ih => exact congrArg (ask request) (funext ih)

/-- The question for one text. -/
def question (request : DecodeRequest) : Dialogue request.Answer := ask request done

/-- The result if every text is decoded when it is asked for. -/
def run : Dialogue α → α
  | done result => result
  | ask request next => (next request.decode).run

@[simp]
theorem run_pure (a : α) : (pure a : Dialogue α).run = a := rfl

@[simp]
theorem run_bind (d : Dialogue α) (f : α → Dialogue β) : (d >>= f).run = (f d.run).run := by
  induction d with
  | done _ => rfl
  | ask request next ih => exact ih request.decode

end Dialogue

end ObjcLens
