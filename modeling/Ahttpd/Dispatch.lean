import Ahttpd.Delivery
import Ahttpd.PathMatch

/-!
# Dispatch to sub-handlers

`RequestHandler::deliverRequest` goes over the registered handlers once and
keeps the last one that matches and is not shorter than the one it has.
`BestOf` says what it has found on the way. At the end that is a handler with
the longest matching path, and since a path matches one base of a length only,
the order of registration does not matter when the paths are distinct
(`deliverRequest_longest`).
-/

namespace Ahttpd

/-- `sub_handlers_`: the paths and their handlers, in the order of registration.
A null pointer is `none`. -/
abbrev SubHandlers (η : Type*) := List (Bytes × Option η)

/-- `Response::Not_Found`. -/
abbrev NotFound : UInt16 := 404

/-- `Response::Not_Implemented`. -/
abbrev NotImplemented : UInt16 := 501

def allowedMethod : List Bytes := [str "GET", str "POST", str "PUT", str "DELETE", str "CONNECT"]

def methodImplemented (method : Bytes) : Bool := allowedMethod.contains method

namespace SubHandlers

variable {η : Type*}

def addSubHandler (subHandlers : SubHandlers η) (path : Bytes) (handler : Option η) :
    SubHandlers η := subHandlers ++ [(path, handler)]

/-- The body of the loop of `deliverRequest`. -/
def deliverStep (path : Bytes) (best handler : Bytes × Option η) : Bytes × Option η :=
  if handler.1.length ≥ best.1.length && isPathMatch path handler.1 then handler else best

/-- `RequestHandler::deliverRequest`: what it returns, and the handlers it calls. -/
def deliverRequest (subHandlers : SubHandlers η) (req : Request) : Bool × List η :=
  match (subHandlers.foldl (deliverStep req.path) ([], none)).2 with
  | none => (false, [])
  | some handler => (true, [handler])

/-- `RequestHandler::handleRequest`, where no derived class has its own. -/
def handleRequest (subHandlers : SubHandlers RequestHandler) : RequestHandler := fun req =>
  if !methodImplemented req.method then (req, [.setStatus NotImplemented])
  else
    match subHandlers.deliverRequest req with
    | (false, _) => (req, [.setStatus NotFound])
    | (true, calls) =>
        calls.foldl (fun (req, ops) handler =>
          let (req, more) := handler req
          (req, ops ++ more)) (req, [])

/-- The handlers of a sequence of registrations. -/
def register (registrations : List (Bytes × η)) : SubHandlers η :=
  registrations.foldl (fun subHandlers r => subHandlers.addSubHandler r.1 (some r.2)) []

/-- No registration has a longer path that matches. -/
def Longest (path : Bytes) (registrations : List (Bytes × η)) (r : Bytes × η) : Prop :=
  isPathMatch path r.1 = true ∧
    ∀ r' ∈ registrations, isPathMatch path r'.1 = true → r'.1.length ≤ r.1.length

/-- What the loop holds after these registrations: nothing when none matches, and
one with the longest path otherwise. -/
def BestOf (path : Bytes) (seen : List (Bytes × η)) (best : Bytes × Option η) : Prop :=
  (best = ([], none) ∧ ∀ r ∈ seen, isPathMatch path r.1 = false) ∨
    ∃ r ∈ seen, best = (r.1, some r.2) ∧ Longest path seen r

section

variable {path : Bytes} {seen registrations registrations' : List (Bytes × η)}
  {best : Bytes × Option η} {r r' : Bytes × η} {req : Request}

theorem register_eq (registrations : List (Bytes × η)) :
    register registrations = registrations.map fun r => (r.1, some r.2) := by
  induction registrations using List.reverseRecOn with
  | nil => rfl
  | append_singleton registrations r ih =>
      rw [register, List.foldl_append, List.map_append]
      exact congrArg (· ++ [(r.1, some r.2)]) ih

/-! ## The loop -/

theorem longest_concat_iff : Longest path (seen ++ [r']) r ↔
    Longest path seen r ∧ (isPathMatch path r'.1 = true → r'.1.length ≤ r.1.length) := by
  simp only [Longest, List.forall_mem_append, List.forall_mem_singleton, and_assoc]

/-- One turn of the loop. -/
theorem BestOf.step (bestOf : BestOf path seen best) (r : Bytes × η) :
    BestOf path (seen ++ [r]) (deliverStep path best (r.1, some r.2)) := by
  unfold deliverStep
  rcases bestOf with ⟨rfl, none⟩ | ⟨held, member, rfl, longest⟩
  · by_cases isMatch : isPathMatch path r.1 = true
    · rw [if_pos (by simp [isMatch])]
      refine .inr ⟨r, List.mem_append_right _ List.mem_cons_self, rfl, ?_⟩
      refine longest_concat_iff.mpr ⟨⟨isMatch, ?_⟩, fun _ => Nat.le_refl _⟩
      intro other before isMatch'
      rw [none other before] at isMatch'
      cases isMatch'
    · rw [if_neg (by simp [isMatch])]
      refine .inl ⟨rfl, List.forall_mem_append.mpr ⟨none, ?_⟩⟩
      exact List.forall_mem_singleton.mpr (Bool.eq_false_iff.mpr isMatch)
  · split
    · rename_i better
      simp only [ge_iff_le, Bool.and_eq_true, decide_eq_true_eq] at better
      refine .inr ⟨r, List.mem_append_right _ List.mem_cons_self, rfl, ?_⟩
      refine longest_concat_iff.mpr ⟨⟨better.2, ?_⟩, fun _ => Nat.le_refl _⟩
      intro other before isMatch
      exact Nat.le_trans (longest.2 other before isMatch) better.1
    · rename_i worse
      simp only [ge_iff_le, Bool.and_eq_true, decide_eq_true_eq, not_and] at worse
      refine .inr ⟨held, List.mem_append_left _ member, rfl, ?_⟩
      refine longest_concat_iff.mpr ⟨longest, fun isMatch => ?_⟩
      by_cases long : held.1.length ≤ r.1.length
      · exact absurd isMatch (worse long)
      · exact Nat.le_of_not_le long

/-- The whole loop. -/
theorem bestOf_foldl (path : Bytes) (registrations : List (Bytes × η)) :
    BestOf path registrations ((register registrations).foldl (deliverStep path) ([], none)) := by
  rw [register_eq]
  induction registrations using List.reverseRecOn with
  | nil => exact .inl ⟨rfl, List.forall_mem_nil _⟩
  | append_singleton registrations r ih =>
      rw [List.map_append, List.foldl_append]
      exact ih.step r

/-- What `deliverRequest` does: nothing when no path matches, and one call to a
handler with the longest path otherwise. -/
theorem deliverRequest_cases (registrations : List (Bytes × η)) (req : Request) :
    ((register registrations).deliverRequest req = (false, []) ∧
      ∀ r ∈ registrations, isPathMatch req.path r.1 = false) ∨
    ∃ r ∈ registrations, (register registrations).deliverRequest req = (true, [r.2]) ∧
      Longest req.path registrations r := by
  unfold deliverRequest
  rcases bestOf_foldl req.path registrations with ⟨isBest, none⟩ | ⟨r, member, isBest, longest⟩
  · rw [isBest]
    exact .inl ⟨rfl, none⟩
  · rw [isBest]
    exact .inr ⟨r, member, rfl, longest⟩

/-- Requests with a known method are not found, or answered by a handler with
the longest path. -/
theorem handleRequest_cases (registrations : List (Bytes × RequestHandler))
    (implemented : methodImplemented req.method = true) :
    (handleRequest (register registrations) req = (req, [.setStatus NotFound]) ∧
      ∀ r ∈ registrations, isPathMatch req.path r.1 = false) ∨
    ∃ r ∈ registrations, handleRequest (register registrations) req = r.2 req ∧
      Longest req.path registrations r := by
  unfold handleRequest
  rw [implemented]
  rcases deliverRequest_cases registrations req with ⟨isResult, none⟩ |
    ⟨r, member, isResult, longest⟩
  · rw [isResult]
    exact .inl ⟨rfl, none⟩
  · rw [isResult]
    exact .inr ⟨r, member, rfl, longest⟩

/-! ## The order of registration -/

theorem eq_of_path_eq (distinct : (registrations.map (·.1)).Nodup) (member : r ∈ registrations)
    (member' : r' ∈ registrations) (same : r.1 = r'.1) : r = r' :=
  List.inj_on_of_nodup_map distinct member member' same

theorem Longest.unique (distinct : (registrations.map (·.1)).Nodup) (member : r ∈ registrations)
    (member' : r' ∈ registrations) (longest : Longest path registrations r)
    (longest' : Longest path registrations r') : r = r' := by
  have lengths : r.1.length = r'.1.length :=
    Nat.le_antisymm (longest'.2 r member longest.1) (longest.2 r' member' longest'.1)
  exact eq_of_path_eq distinct member member' (eq_of_isPathMatch longest.1 longest'.1 lengths)

theorem Longest.of_perm (perm : registrations'.Perm registrations)
    (longest : Longest path registrations' r) : Longest path registrations r :=
  ⟨longest.1, fun other member => longest.2 other (perm.mem_iff.mpr member)⟩

theorem deliverRequest_perm (distinct : (registrations.map (·.1)).Nodup)
    (perm : registrations'.Perm registrations) (req : Request) :
    (register registrations').deliverRequest req = (register registrations).deliverRequest req := by
  rcases deliverRequest_cases registrations req with ⟨isResult, none⟩ |
    ⟨r, member, isResult, longest⟩
  · rcases deliverRequest_cases registrations' req with ⟨isResult', -⟩ | ⟨r', member', -, longest'⟩
    · rw [isResult, isResult']
    · have isMatch := longest'.1
      rw [none r' (perm.mem_iff.mp member')] at isMatch
      cases isMatch
  · rcases deliverRequest_cases registrations' req with
      ⟨-, none'⟩ | ⟨r', member', isResult', longest'⟩
    · have isMatch := longest.1
      rw [none' r (perm.mem_iff.mpr member)] at isMatch
      cases isMatch
    · rw [isResult, isResult', Longest.unique distinct member (perm.mem_iff.mp member') longest
        (longest'.of_perm perm)]

/-- **Dispatch.** A request goes to no handler when no path matches, and to one
with the longest matching path otherwise; with distinct paths there is only one
of that length, whatever the order of registration. -/
theorem deliverRequest_longest (registrations : List (Bytes × η)) (req : Request) :
    (((register registrations).deliverRequest req).1 = false ↔
      ∀ r ∈ registrations, isPathMatch req.path r.1 = false) ∧
    (((register registrations).deliverRequest req).1 = true →
      ∃ r ∈ registrations, ((register registrations).deliverRequest req).2 = [r.2] ∧
        Longest req.path registrations r) ∧
    ((registrations.map (·.1)).Nodup →
      (∀ r ∈ registrations, ∀ r' ∈ registrations, isPathMatch req.path r.1 = true →
        isPathMatch req.path r'.1 = true → r.1 ≠ r'.1 → r.1.length ≠ r'.1.length) ∧
      ∀ registrations', registrations'.Perm registrations →
        (register registrations').deliverRequest req =
          (register registrations).deliverRequest req) := by
  refine ⟨?_, ?_, ?_⟩
  · rcases deliverRequest_cases registrations req with ⟨isResult, none⟩ |
      ⟨r, member, isResult, longest⟩
    · exact iff_of_true (by rw [isResult]) none
    · refine iff_of_false (by rw [isResult]; nofun) ?_
      intro none
      have isMatch := longest.1
      rw [none r member] at isMatch
      cases isMatch
  · intro delivered
    rcases deliverRequest_cases registrations req with ⟨isResult, -⟩ |
      ⟨r, member, isResult, longest⟩
    · rw [isResult] at delivered
      cases delivered
    · exact ⟨r, member, by rw [isResult], longest⟩
  · intro distinct
    refine ⟨?_, fun registrations' perm => deliverRequest_perm distinct perm req⟩
    intro r _ r' _ isMatch isMatch' differs lengths
    exact differs (eq_of_isPathMatch isMatch isMatch' lengths)

end

end SubHandlers

end Ahttpd
