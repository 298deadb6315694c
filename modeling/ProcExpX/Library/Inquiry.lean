import ProcExpX.Library.Sorting

/-!
# Computations that ask

A computation that learns about the outside only by asking questions, one after another,
each perhaps chosen by the answers before. The one who answers may change a state while
answering. If that state remembers the answers given, the computation cannot tell it from
one whose answers were fixed from the start.
-/

namespace Library

universe u v w

/-- A computation that asks questions in `Q`, is told answers in `A` and ends with a result
in `R`. -/
inductive Inquiry (Q : Type u) (A : Type v) (R : Type w)
  /-- It ends. -/
  | done (r : R)
  /-- It asks a question and goes on by the answer. -/
  | ask (q : Q) (next : A → Inquiry Q A R)

namespace Inquiry

variable {Q : Type u} {A : Type v} {R : Type w} {S : Type*}

/-- The result if every question has a fixed answer. -/
def answeredBy (f : Q → A) : Inquiry Q A R → R
  | done r => r
  | ask q next => (next (f q)).answeredBy f

/-- The result and the last state if answering a question may change a state. -/
def consult (step : S → Q → A × S) : Inquiry Q A R → S → R × S
  | done r, s => (r, s)
  | ask q next, s => (next (step s q).1).consult step (step s q).2

/-- Change the result of a computation. -/
def map {R' : Type*} (g : R → R') : Inquiry Q A R → Inquiry Q A R'
  | done r => done (g r)
  | ask q next => ask q fun a => (next a).map g

/-- Go on with another computation. -/
def bind {R' : Type*} : Inquiry Q A R → (R → Inquiry Q A R') → Inquiry Q A R'
  | done r, g => g r
  | ask q next, g => ask q fun a => (next a).bind g

/-- Fixed answers lead to the changed result. -/
@[simp] theorem answeredBy_map {R' : Type*} (f : Q → A) (g : R → R') (t : Inquiry Q A R) :
    (t.map g).answeredBy f = g (t.answeredBy f) := by
  induction t with
  | done r => rfl
  | ask q next ih => exact ih (f q)

/-- Fixed answers are the same for both parts of a computation. -/
@[simp] theorem answeredBy_bind {R' : Type*} (f : Q → A) (t : Inquiry Q A R)
    (g : R → Inquiry Q A R') : (t.bind g).answeredBy f = (g (t.answeredBy f)).answeredBy f := by
  induction t with
  | done r => rfl
  | ask q next ih => exact ih (f q)

/-- The state remembers the answers given: `known` is what it says of a question. -/
structure Remembers (step : S → Q → A × S) (known : S → Q → Option A) : Prop where
  /-- An answer given is known. -/
  told : ∀ s q, known (step s q).2 q = some (step s q).1
  /-- What is known stays known. -/
  kept : ∀ s q q' a, known s q' = some a → known (step s q).2 q' = some a

variable {step : S → Q → A × S} {known : S → Q → Option A}

/-- What is known stays known to the end. -/
theorem Remembers.consult_kept (h : Remembers step known) (t : Inquiry Q A R) {s : S} {q : Q}
    {a : A} (hknown : known s q = some a) : known (t.consult step s).2 q = some a := by
  induction t generalizing s with
  | done r => exact hknown
  | ask q' next ih => exact ih _ (h.kept s q' q a hknown)

/-- **Fixed answers.** A computation that is answered by a state that remembers ends as if it
had been answered by what is known in the end. -/
theorem Remembers.consult_eq (h : Remembers step known) (t : Inquiry Q A R) (s : S) {f : Q → A}
    (hf : ∀ q a, known (t.consult step s).2 q = some a → f q = a) :
    (t.consult step s).1 = t.answeredBy f := by
  induction t generalizing s with
  | done r => rfl
  | ask q next ih =>
    have htold := h.told s q
    have hanswer : f q = (step s q).1 :=
      hf q _ (h.consult_kept (next (step s q).1) htold)
    have hrest := ih (step s q).1 (step s q).2 hf
    rw [← hanswer] at hrest
    calc ((ask q next).consult step s).1
        = ((next (f q)).consult step (step s q).2).1 := by rw [hanswer]; rfl
      _ = (next (f q)).answeredBy f := hrest

end Inquiry

section Insertion

variable {α : Type}

/-- Insert an element into a sorted list, asking whether one element is smaller than another. -/
def insertInquiry (a : α) : List α → Inquiry (α × α) Bool (List α)
  | [] => .done [a]
  | b :: l => .ask (b, a) fun smaller =>
    if smaller then (insertInquiry a l).map (b :: ·) else .done (a :: b :: l)

/-- Insertion sort as a computation that asks for comparisons. -/
def insertionInquiry : List α → Inquiry (α × α) Bool (List α)
  | [] => .done []
  | a :: l => (insertionInquiry l).bind (insertInquiry a)

/-- With a fixed comparison it is insertion sort. -/
theorem insertionInquiry_sort (less : α → α → Bool) (l : List α) :
    (insertionInquiry l).answeredBy (fun q => less q.1 q.2) = StdSort.insertion.sort less l := by
  have hinsert : ∀ (a : α) (l : List α), (insertInquiry a l).answeredBy (fun q => less q.1 q.2) =
      l.orderedInsert (fun a b => less b a = false) a := by
    intro a l
    induction l with
    | nil => rfl
    | cons b l ih =>
      unfold insertInquiry
      rw [List.orderedInsert_cons]
      cases hless : less b a with
      | true => simp [Inquiry.answeredBy, hless, ih]
      | false => simp [Inquiry.answeredBy, hless]
  induction l with
  | nil => rfl
  | cons a l ih =>
    unfold insertionInquiry
    rw [Inquiry.answeredBy_bind, ih, hinsert]
    rfl

end Insertion

end Library
