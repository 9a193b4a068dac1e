/-
  Domain names (lib/ovn-util.c): `encode_fqdn_string`, on bytes as numbers.

  It rejects no name.  The length of a label is counted in an `int8_t`, so that one of more than 127
  bytes is written at a place after its end.
-/
import Mathlib

namespace Ovn.Fqdn

open List

/-- What a call may come to; `fault` is a write out of bounds. -/
inductive Outcome where
  | buffer (encoded : List ℕ)
  | rejected
  | fault
  deriving DecidableEq

def int8 (x : ℤ) : ℤ := (x + 128) % 256 - 128

structure State where
  i : ℕ
  labelLen : ℤ
  encoded : List ℕ

def put (encoded : List ℕ) (i : ℤ) (b : ℕ) : Option (List ℕ) :=
  if 0 ≤ i ∧ i < encoded.length then some (encoded.set i.toNat b) else none

def State.putLen (s : State) : Option (List ℕ) :=
  put s.encoded (s.i - s.labelLen) (s.labelLen % 256).toNat

def dot : ℕ := '.'.toNat

def State.step (s : State) (c : ℕ) : Option State :=
  if c = dot then s.putLen.map (⟨s.i + 1, 0, ·⟩)
  else (put s.encoded (s.i + 1) c).map (⟨s.i + 1, int8 (s.labelLen + 1), ·⟩)

def State.finish (s : State) : Option (List ℕ) :=
  if s.labelLen ≠ 0 then s.putLen else some s.encoded

def encodeFqdnString (fqdn : List ℕ) : Outcome :=
  match (fqdn.foldlM State.step ⟨0, 0, replicate (fqdn.length + 2) 0⟩).bind State.finish with
  | some encoded => .buffer encoded
  | none => .fault

/-- The labels of a name in wire format. -/
def decode : List ℕ → Option (List (List ℕ))
  | [] => none
  | 0 :: _ => some []
  | (n + 1) :: rest =>
    if n < rest.length then (decode (rest.drop (n + 1))).map (rest.take (n + 1) :: ·) else none
termination_by l => l.length

def name (labels : List (List ℕ)) : List ℕ := [dot].intercalate labels

def Right (labels : List (List ℕ)) (r : Outcome) : Prop :=
  if ∀ l ∈ labels, l.length ≤ 63 then
    ∃ encoded, r = .buffer encoded ∧ encoded.length = (name labels).length + 2 ∧
      decode encoded = some labels
  else r = .rejected

def wire (labels : List (List ℕ)) : List ℕ := labels.flatMap fun l => l.length :: l

theorem decode_wire {labels : List (List ℕ)} (h : ∀ l ∈ labels, l ≠ []) (rest : List ℕ) :
    decode (wire labels ++ 0 :: rest) = some labels := by
  induction labels with
  | nil => simp [wire, decode]
  | cons l labels ih =>
    obtain ⟨hl, h⟩ := forall_mem_cons.1 h
    obtain ⟨n, hn⟩ := Nat.exists_eq_succ_of_ne_zero (mt length_eq_zero_iff.1 hl)
    have : wire (l :: labels) ++ 0 :: rest = (n + 1) :: (l ++ (wire labels ++ 0 :: rest)) := by
      simp [wire, hn]
    rw [this, decode, if_pos (by simp; omega), drop_left' hn, take_left' hn, ih h]
    rfl

theorem put_append {p : List ℕ} {i : ℤ} (hi : i = p.length) (r : List ℕ) (x b : ℕ) :
    put (p ++ x :: r) i b = some (p ++ b :: r) := by
  rw [put, if_pos (by simp [hi])]
  simp [hi]

/-- The bytes `l` of a label have been put after the place of its length. -/
def amid (p l : List ℕ) (n : ℕ) : State :=
  ⟨p.length + l.length, l.length, p ++ 0 :: l ++ replicate n 0⟩

theorem step_amid {c : ℕ} (hc : c ≠ dot) {l : List ℕ} (hlen : l.length < 127) (p : List ℕ) (n : ℕ) :
    (amid p l (n + 1)).step c = some (amid p (l ++ [c]) n) := by
  have hint : int8 (l.length + 1) = l.length + 1 := by
    unfold int8
    omega
  rw [State.step, if_neg hc, amid, replicate_succ, put_append (by simp; omega)]
  simp [amid, hint, Nat.add_assoc]

theorem putLen_amid {l : List ℕ} (hlen : l.length ≤ 127) (p : List ℕ) (n : ℕ) :
    (amid p l n).putLen = some (p ++ l.length :: l ++ replicate n 0) := by
  have hmod : ((l.length : ℤ) % 256).toNat = l.length := by omega
  rw [State.putLen, amid, append_assoc, cons_append, put_append (by simp), hmod]
  simp

theorem dot_amid {l : List ℕ} (hlen : l.length ≤ 127) (p : List ℕ) (n : ℕ) :
    (amid p l (n + 1)).step dot = some (amid (p ++ l.length :: l) [] n) := by
  rw [State.step, if_pos rfl, putLen_amid hlen]
  simp [amid, replicate_succ, Nat.add_assoc]

theorem foldlM_amid {l : List ℕ} (hdot : dot ∉ l) (l' : List ℕ) (hlen : l'.length + l.length ≤ 127)
    (p : List ℕ) (n : ℕ) : l.foldlM State.step (amid p l' (n + l.length)) =
      some (amid p (l' ++ l) n) := by
  induction l generalizing l' with
  | nil => simp
  | cons c l ih =>
    obtain ⟨hc, hdot⟩ := not_or.1 (mem_cons.not.1 hdot)
    rw [length_cons] at hlen
    rw [length_cons, foldlM_cons, ← Nat.add_assoc, step_amid (Ne.symm hc) (by omega)]
    simpa using ih hdot (l' ++ [c]) (by simp; omega)

theorem encode_labels {ls : List (List ℕ)} (h : ∀ l ∈ ls, l ≠ [] ∧ dot ∉ l ∧ l.length ≤ 127)
    (p : List ℕ) :
    ∃ k, (wire ls).length + k = (name ls).length + 1 ∧
      ((name ls).foldlM State.step (amid p [] ((name ls).length + 1))).bind State.finish =
        some (p ++ (wire ls ++ 0 :: replicate k 0)) := by
  induction ls generalizing p with
  | nil => exact ⟨1, rfl, by simp [name, State.finish, amid, wire]⟩
  | cons l ls ih =>
    obtain ⟨⟨hne, hdot, hlen⟩, h⟩ := forall_mem_cons.1 h
    have hl := foldlM_amid hdot [] (by simpa using hlen) p
    cases ls with
    | nil =>
      have hname : name [l] = l := by simp [name]
      refine ⟨0, by simp [wire, hname], ?_⟩
      rw [hname, Nat.add_comm, hl, Option.bind_some, State.finish,
        if_pos (by simpa [amid] using hne), nil_append,
        putLen_amid hlen]
      simp [wire]
    | cons l' ls =>
      have hname : name (l :: l' :: ls) = l ++ dot :: name (l' :: ls) := rfl
      obtain ⟨k, hlen', ih⟩ := ih h (p ++ l.length :: l)
      refine ⟨k, by simp [wire, hname] at hlen' ⊢; omega, ?_⟩
      rw [hname, foldlM_append, length_append, length_cons, Nat.add_comm l.length,
        Nat.add_right_comm, hl]
      simp only [Option.bind_eq_bind, Option.bind_some, foldlM_cons, nil_append, dot_amid hlen, ih]
      simp [wire]

/-- **Names are encoded as they should be** if and only if no label is too long. -/
theorem encodeFqdnString_right_iff (labels : List (List ℕ)) (h : ∀ l ∈ labels, l ≠ [] ∧ dot ∉ l) :
    Right labels (encodeFqdnString (name labels)) ↔ ∀ l ∈ labels, l.length ≤ 63 := by
  unfold Right
  split
  next hlen =>
    refine iff_of_true ?_ hlen
    obtain ⟨k, hlen', hrun⟩ :=
      encode_labels (fun l hl => ⟨(h l hl).1, (h l hl).2, (hlen l hl).trans (by decide)⟩) []
    refine ⟨_, ?_, ?_, decode_wire (fun l hl => (h l hl).1) (replicate k 0)⟩
    · have hstart : amid [] [] ((name labels).length + 1) = ⟨0, 0,
        replicate ((name labels).length + 2) 0⟩ := rfl
      rw [hstart, nil_append] at hrun
      rw [encodeFqdnString, hrun]
    · simp
      omega
  next hlong =>
    refine iff_of_false ?_ hlong
    unfold encodeFqdnString
    split <;> nofun

theorem encodeFqdnString_right_example :
    Right [[97, 98], [99]] (encodeFqdnString [97, 98, 46, 99]) ↔ ∀ l ∈ [[97, 98], [99]],
      l.length ≤ 63 :=
  encodeFqdnString_right_iff [[97, 98], [99]] (by decide)

/-- The length of a label of 200 bytes is written out of bounds. -/
theorem not_encodeFqdnString_right :
    ∃ l : List ℕ, l ≠ [] ∧ dot ∉ l ∧ encodeFqdnString (name [l]) = .fault :=
  ⟨replicate 200 97, by decide, by decide, by decide +kernel⟩

end Ovn.Fqdn
