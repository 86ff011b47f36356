import Mathlib.Data.List.Infix

/-!
# Lists in the order of their last use

The entries of a cache from the most to the least recently used one. Entries have keys, of which
each occurs once. The uses so far are a list of keys, the last one first, and an entry comes before
another one if the first place of its key is before that of the other.
-/

namespace Lib.LRU

open List

variable {ε κ : Type*} [DecidableEq κ] (key : ε → κ)

def forget (k : κ) (l : List ε) : List ε := l.filter fun e => key e ≠ k

structure Recent (uses : List κ) (l : List ε) : Prop where
  used : ∀ e ∈ l, key e ∈ uses
  ordered : l.Pairwise fun e e' => uses.idxOf (key e) < uses.idxOf (key e')

variable {key} {uses : List κ} {l l' : List ε} {e : ε} {k : κ}

lemma mem_forget : e ∈ forget key k l ↔ e ∈ l ∧ key e ≠ k := by
  rw [forget, mem_filter, decide_eq_true_iff]

lemma recent_nil : Recent key uses ([] : List ε) := ⟨by simp, List.Pairwise.nil⟩

lemma Recent.sublist (h : Recent key uses l) (hl : l'.Sublist l) : Recent key uses l' :=
  ⟨fun e he => h.used e (hl.subset he), h.ordered.sublist hl⟩

lemma Recent.forget (h : Recent key uses l) (k : κ) : Recent key uses (forget key k l) :=
  h.sublist filter_sublist

lemma Recent.use (h : Recent key uses l) (e : ε) :
    Recent key (key e :: uses) (e :: LRU.forget key (key e) l) := by
  have hother : ∀ e' ∈ LRU.forget key (key e) l,
      (key e :: uses).idxOf (key e') = uses.idxOf (key e') + 1 := fun e' he' =>
    idxOf_cons_ne uses (mem_forget.mp he').2.symm
  constructor
  · intro e' he'
    rcases mem_cons.mp he' with rfl | he'
    · exact mem_cons_self
    · exact mem_cons_of_mem _ (h.used e' (mem_forget.mp he').1)
  · refine pairwise_cons.mpr ⟨fun e' he' => ?_, ?_⟩
    · rw [idxOf_cons_self, hother e' he']
      exact Nat.succ_pos _
    · refine (h.forget (key e)).ordered.imp_of_mem fun {a b} ha hb hab => ?_
      rw [hother a ha, hother b hb]
      exact Nat.succ_lt_succ hab

structure LongestFit (fits : List ε → Prop) (l l' : List ε) : Prop where
  front : l' <+: l
  fit : fits l'
  longest : ∀ m, m <+: l → fits m → m <+: l'

variable {fits : List ε → Prop}

lemma longestFit_self (h : fits l) : LongestFit fits l l :=
  ⟨prefix_refl l, h, fun _ hm _ => hm⟩

/-- A list that does not fit loses its last entry. -/
lemma LongestFit.of_dropLast (hl : ¬ fits l) (h : LongestFit fits l.dropLast l') :
    LongestFit fits l l' := by
  refine ⟨h.front.trans l.dropLast_prefix, h.fit, fun m hm hfit => ?_⟩
  refine h.longest m ?_ hfit
  have hlt : m.length < l.length := by
    refine lt_of_le_of_ne hm.length_le fun heq => hl ?_
    rwa [← hm.eq_of_length heq]
  refine prefix_of_prefix_length_le hm l.dropLast_prefix ?_
  rw [length_dropLast]
  exact Nat.le_sub_one_of_lt hlt

end Lib.LRU
