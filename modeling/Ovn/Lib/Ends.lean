/-
  How a computation that may fail can end, and the rules for its loops.
-/
import Mathlib.Data.List.Basic

namespace Ovn

open List

universe u

variable {ε ι κ : Type*} {α β σ : Type u}

/-- The computation ends with a result as in `Q`, or with a failure as in `E`. -/
def Ends (E : ε → Prop) (Q : α → Prop) : Except ε α → Prop
  | .ok a => Q a
  | .error e => E e

variable {E : ε → Prop} {Q : α → Prop} {x : Except ε α}

theorem Ends.bind {R : β → Prop} {f : α → Except ε β} (hx : Ends E Q x)
    (hf : ∀ a, Q a → Ends E R (f a)) :
    Ends E R (x >>= f) := by
  cases x with
  | ok a => exact hf a hx
  | error e => exact hx

theorem Ends.mono {R : α → Prop} (hx : Ends E Q x) (h : ∀ a, Q a → R a) : Ends E R x := by
  cases x with
  | ok a => exact h a hx
  | error e => exact hx

theorem Ends.map {Q : β → Prop} {f : α → β} (hx : Ends E (fun a => Q (f a)) x) :
    Ends E Q (x.map f) := by
  cases x with
  | ok a => exact hx
  | error e => exact hx

theorem Ends.weaken {F : ε → Prop} (hx : Ends E Q x) (h : ∀ e, E e → F e) : Ends F Q x := by
  cases x with
  | ok a => exact hx
  | error e => exact h e hx

theorem Ends.of_toOption {a : α} (hx : Ends E Q x) (h : x.toOption = some a) : Q a := by
  cases x with
  | ok b =>
    cases h
    exact hx
  | error e => cases h

theorem Ends.ne_error {e : ε} (hx : Ends E Q x) (he : ¬ E e) : x ≠ .error e := by
  rintro rfl
  exact he hx

theorem Ends.exists_ok (hx : Ends (fun _ : ε => False) Q x) : ∃ a, x = .ok a ∧ Q a := by
  cases x with
  | ok a => exact ⟨a, rfl, hx⟩
  | error e => exact hx.elim

theorem Ends.trivial (x : Except ε α) : Ends (fun _ => True) (fun _ => True) x := by
  cases x <;> exact True.intro

variable {f : σ → ι → Except ε σ}

/-- **Loops.** What holds with the whole list ahead and is kept by every element holds in the
    end. -/
theorem Ends.foldlM {I : List ι → σ → Prop} (hf : ∀ b l s, I (b :: l) s → Ends E (I l) (f s b)) :
    ∀ (l : List ι) (s : σ), I l s → Ends E (I []) (l.foldlM f s)
  | [], _, h => h
  | b :: l, s, h => by
    exact Ends.bind (hf b l s h) fun s' => Ends.foldlM hf l s'

/-- **Loops**, by what is done. -/
theorem Ends.foldlM_done {R : List ι → σ → Prop} {l : List ι}
    (hf : ∀ done b s, done ++ [b] <+: l → R done s → Ends E (R (done ++ [b])) (f s b)) {s : σ}
    (h : R [] s) :
    Ends E (R l) (l.foldlM f s) := by
  refine (Ends.foldlM (I := fun rest s => ∃ done, done ++ rest = l ∧ R done s) ?_ l s ⟨[], rfl,
    h⟩).mono ?_
  · rintro b rest s ⟨done, hl, hs⟩
    rw [append_cons] at hl
    exact (hf done b s ⟨rest, hl⟩ hs).mono fun s' hs' => ⟨done ++ [b], hl, hs'⟩
  · rintro s' ⟨done, hl, hs'⟩
    rw [append_nil] at hl
    exact hl ▸ hs'

/-- **Loops** that only go up: what an element brings about stays. -/
theorem Ends.foldlM_each {R : σ → σ → Prop} (hrefl : ∀ s, R s s)
    (htrans : ∀ {a b c}, R a b → R b c → R a c) {P : ι → σ → Prop}
    (hmono : ∀ b {s s'}, R s s' → P b s → P b s') :
    ∀ (l : List ι) (s : σ), (∀ b ∈ l, ∀ s', R s s' → Ends E (fun t => R s' t ∧ P b t) (f s' b)) →
      Ends E (fun t => R s t ∧ ∀ b ∈ l, P b t) (l.foldlM f s)
  | [], s, _ => ⟨hrefl s, nofun⟩
  | b :: l, s, hf => by
    refine Ends.bind (hf b mem_cons_self s (hrefl s)) fun s₁ h1 => ?_
    have ih := Ends.foldlM_each hrefl htrans hmono l s₁ fun c hc s' hs' =>
      hf c (mem_cons_of_mem b hc) s' (htrans h1.1 hs')
    refine ih.mono fun t ht => ⟨htrans h1.1 ht.1, fun c hc => ?_⟩
    rcases mem_cons.1 hc with rfl | hc
    · exact hmono c ht.1 h1.2
    · exact ht.2 c hc

/-- **Loops** that do not fail: the invariant is over what is left. -/
theorem foldl_left {f : σ → ι → σ} {I : List ι → σ → Prop}
    (hf : ∀ b l s, I (b :: l) s → I l (f s b)) : ∀ (l : List ι) (s : σ), I l s → I [] (l.foldl f s)
  | [], _, h => h
  | b :: l, s, h => foldl_left hf l (f s b) (hf b l s h)

/-- **Loops** that do not fail, by what is done. -/
theorem foldl_split {f : σ → ι → σ} {R : List ι → σ → Prop} {l : List ι}
    (hf : ∀ done b rest, l = done ++ b :: rest → ∀ s, R done s → R (done ++ [b]) (f s b)) {s : σ}
    (h : R [] s) : R l (l.foldl f s) := by
  obtain ⟨done, hl, hs⟩ := foldl_left (I := fun rest s => ∃ done, l = done ++ rest ∧ R done s)
    (fun b rest s ⟨done, hl, hs⟩ =>
      ⟨done ++ [b], hl.trans (append_cons ..), hf done b rest hl s hs⟩) l s ⟨[], rfl, h⟩
  rw [append_nil] at hl
  exact hl ▸ hs

section
variable {σ τ : Type*} {f : σ → ι → σ} {g : σ → τ} {P : ι → Prop}

theorem foldl_same : ∀ {l : List ι} {s : σ}, (∀ b ∈ l, ∀ s, g (f s b) = g s) → g (l.foldl f s) = g s
  | [], _, _ => rfl
  | b :: _, s, h => (foldl_same (forall_mem_cons.1 h).2).trans (h b mem_cons_self s)

theorem foldl_sets {x : τ} : ∀ {l : List ι} {s : σ}, (∀ b ∈ l, P b → ∀ s, g (f s b) = x) →
    (∀ b ∈ l, ¬ P b → ∀ s, g (f s b) = g s) → (g s = x ∨ ∃ b ∈ l, P b) → g (l.foldl f s) = x
  | [], _, _, _, h => h.resolve_right fun ⟨_, hb, _⟩ => absurd hb not_mem_nil
  | b :: l, s, hset, hsame, h => by
    refine foldl_sets (s := f s b) (forall_mem_cons.1 hset).2 (forall_mem_cons.1 hsame).2 ?_
    by_cases hb : P b
    · exact .inl (hset b mem_cons_self hb s)
    · rw [hsame b mem_cons_self hb]
      refine h.imp_right fun ⟨c, hc, hP⟩ => ⟨c, (mem_cons.1 hc).resolve_left ?_, hP⟩
      rintro rfl
      exact hb hP

theorem foldl_or {Q : σ → Prop} : ∀ {l : List ι} {s : σ}, (∀ b ∈ l, ∀ s, Q (f s b) → Q s ∨ P b) →
    Q (l.foldl f s) → Q s ∨ ∃ b ∈ l, P b
  | [], _, _, h => .inl h
  | b :: l, s, hf, h => by
    rcases foldl_or (forall_mem_cons.1 hf).2 h with h | ⟨c, hc, hP⟩
    · exact (hf b mem_cons_self s h).imp_right fun hP => ⟨b, mem_cons_self, hP⟩
    · exact .inr ⟨c, mem_cons_of_mem b hc, hP⟩

end

theorem Ends.both {F : ε → Prop} {R : α → Prop} (hQ : Ends E Q x) (hR : Ends F R x) :
    Ends (fun e => E e ∧ F e) (fun a => Q a ∧ R a) x := by
  cases x with
  | ok a => exact ⟨hQ, hR⟩
  | error e => exact ⟨hQ, hR⟩

theorem Ends.and {R : α → Prop} (hQ : Ends E Q x) (hR : Ends (fun _ => True) R x) :
    Ends E (fun a => Q a ∧ R a) x :=
  (hQ.both hR).weaken fun _ h => h.1

/-- **Loops over keys.** The invariant says which keys are still to come; none comes twice. -/
theorem Ends.foldlM_keys (key : ι → κ) {P : ι → Prop} {I : List κ → σ → Prop}
    (hf : ∀ b keys s, P b → key b ∉ keys → I (key b :: keys) s → Ends E (I keys) (f s b))
    (l : List ι)
    (s : σ) (hP : ∀ b ∈ l, P b) (hnodup : (l.map key).Nodup) (hs : I (l.map key) s) :
    Ends E (I []) (l.foldlM f s) := by
  have h := Ends.foldlM (E := E) (f := f)
    (I := fun l s => (∀ b ∈ l, P b) ∧ (l.map key).Nodup ∧ I (l.map key) s) ?_ l s ⟨hP, hnodup, hs⟩
  · exact h.mono fun s' hs' => hs'.2.2
  · rintro b l s ⟨hP, hnodup, hs⟩
    obtain ⟨hb, hnodup⟩ := nodup_cons.1 hnodup
    refine (hf b (l.map key) s (hP b mem_cons_self) hb hs).mono fun s' hs' => ?_
    exact ⟨(forall_mem_cons.1 hP).2, hnodup, hs'⟩

end Ovn
