import Mathlib.Data.List.Induction

/-!
# Output to a sink

A program that prints hands its characters to a function on a sink, one at a time.  What it
prints is a list, the same one for every sink.
-/

namespace OsLabs
namespace Foundation

section Emit

variable {char sink : Type}

def emit (put : char -> sink -> sink) (dat : sink) (out : List char) : sink :=
  out.foldl (fun dat c => put c dat) dat

variable {put : char -> sink -> sink} {dat : sink}

theorem emit_cons {c : char} {out : List char} :
    emit put dat (c :: out) = emit put (put c dat) out := rfl

theorem emit_append {out out' : List char} :
    emit put dat (out ++ out') = emit put (emit put dat out) out' := List.foldl_append

theorem emit_concat {out : List char} {c : char} :
    emit put dat (out ++ [c]) = put c (emit put dat out) := emit_append

/-- A relation between what was printed and the sink that every character keeps. -/
theorem emit_invariant {P : List char -> sink -> Prop} (hstart : P [] dat)
    (hput : forall out c dat, P out dat -> P (out ++ [c]) (put c dat)) (out : List char) :
    P out (emit put dat out) := by
  induction out using List.reverseRecOn with
  | nil => exact hstart
  | append_singleton out c ih =>
      rw [emit_concat]
      exact hput out c _ ih

theorem emit_collect (out : List char) : emit (fun c l => l ++ [c]) [] out = out :=
  emit_invariant (P := fun out dat => dat = out) rfl
    (fun _ _ _ h => by rw [h]) out

end Emit

/-- A program that prints, for all sinks. -/
abbrev Printer (char : Type) : Type 1 :=
  forall sink : Type, (char -> sink -> sink) -> sink -> Option sink

def Emits {char : Type} (f : Printer char) (out : List char) : Prop :=
  forall (sink : Type) (put : char -> sink -> sink) (dat : sink),
    f sink put dat = some (emit put dat out)

section Rules

variable {char : Type} {f g : Printer char} {out out' : List char}

theorem Emits.unique (h : Emits f out) (h' : Emits f out') : out = out' := by
  have hcollect := h _ (fun c l => l ++ [c]) []
  rw [h' _ (fun c l => l ++ [c]) [], emit_collect, emit_collect] at hcollect
  exact (Option.some.inj hcollect).symm

end Rules

end Foundation
end OsLabs
