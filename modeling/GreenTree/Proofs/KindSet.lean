import GreenTree.KindSet
import Mathlib.Data.Finset.Card
import Mathlib.Data.Fintype.Defs

/-!
Sets of kinds as finite sets. However sets are combined, a bit stands for a member: it is set only
at the tag of one, and set there. So the bits of a set are known from its members: equal sets are
those with the same members, the bits that are set count the members, and the members in tag order
make the set again.
-/

namespace GreenTree

namespace Kind

instance : Fintype Kind := ⟨all.toFinset, fun k => List.mem_toFinset.2 k.mem_all⟩

theorem map_tag_all : all.map tag = List.range 47 := by
  decide

theorem pairwise_all : all.Pairwise fun a b => a.tag < b.tag := by
  rw [← List.pairwise_map, map_tag_all]
  exact List.pairwise_lt_range

end Kind

namespace KindSet

/-- Whether the bits of a set are those of some kinds: they are set at the tags of these and nowhere
else. -/
def Represents (s : KindSet) (kinds : Finset Kind) : Prop :=
  ∀ i, s.bits.getLsbD i = true ↔ ∃ k ∈ kinds, k.tag = i

namespace Represents

variable {s t : KindSet} {kinds others : Finset Kind}

theorem empty : KindSet.empty.Represents ∅ := by
  intro i
  simp [KindSet.empty]

theorem insert (represents : s.Represents kinds) (k : Kind) :
    (s.insert k).Represents (Insert.insert k kinds) := by
  intro i
  have small : k.tag < 64 := k.tag_lt.trans (by decide)
  simp only [KindSet.insert, BitVec.getLsbD_or, BitVec.getLsbD_twoPow, Bool.or_eq_true,
    Bool.and_eq_true, decide_eq_true_iff, represents i, small, true_and, Finset.mem_insert,
    exists_eq_or_imp]
  exact or_comm

theorem union (represents : s.Represents kinds) (represents' : t.Represents others) :
    (s.union t).Represents (kinds ∪ others) := by
  intro i
  simp only [KindSet.union, BitVec.getLsbD_or, Bool.or_eq_true, represents i, represents' i,
    Finset.mem_union, or_and_right, exists_or]

theorem difference (represents : s.Represents kinds) (represents' : t.Represents others) :
    (s.difference t).Represents (kinds \ others) := by
  intro i
  have absent : t.bits.getLsbD i = false ↔ ¬∃ k ∈ others, k.tag = i := by
    rw [← represents' i, Bool.not_eq_true]
  simp only [KindSet.difference, BitVec.getLsbD_and, BitVec.getLsbD_not, Bool.and_eq_true,
    decide_eq_true_iff, Bool.not_eq_true', represents i, absent, Finset.mem_sdiff]
  constructor
  · rintro ⟨⟨k, mem, rfl⟩, -, apart⟩
    exact ⟨k, ⟨mem, fun other => apart ⟨k, other, rfl⟩⟩, rfl⟩
  · rintro ⟨k, ⟨mem, apart⟩, rfl⟩
    refine ⟨⟨k, mem, rfl⟩, k.tag_lt.trans (by decide), ?_⟩
    rintro ⟨j, other, same⟩
    exact apart (Kind.tag_injective same ▸ other)

theorem foldl (represents : s.Represents kinds) (ks : List Kind) :
    (ks.foldl KindSet.insert s).Represents (kinds ∪ ks.toFinset) := by
  induction ks generalizing s kinds with
  | nil => simpa using represents
  | cons k ks ih =>
    have all := ih (represents.insert k)
    rwa [Finset.insert_union, ← Finset.union_insert, ← List.toFinset_cons] at all

theorem ofList {ks : List Kind} (listed : ks.toFinset = kinds) :
    (KindSet.ofList ks).Represents kinds := by
  have all := empty.foldl ks
  rwa [Finset.empty_union, listed] at all

theorem unique (represents : s.Represents kinds) (represents' : t.Represents kinds) : s = t := by
  have bits : s.bits = t.bits :=
    BitVec.eq_of_getLsbD_eq fun i _ => Bool.eq_iff_iff.2 ((represents i).trans (represents' i).symm)
  cases s
  cases t
  exact congrArg KindSet.mk bits

theorem contains_iff (represents : s.Represents kinds) (k : Kind) :
    s.contains k = true ↔ k ∈ kinds := by
  refine (represents k.tag).trans ⟨?_, fun mem => ⟨k, mem, rfl⟩⟩
  rintro ⟨j, mem, same⟩
  exact Kind.tag_injective same ▸ mem

theorem beq_iff (represents : s.Represents kinds) (represents' : t.Represents others) :
    (s == t) = true ↔ kinds = others := by
  rw [beq_iff_eq]
  constructor
  · rintro rfl
    ext k
    rw [← represents.contains_iff, represents'.contains_iff]
  · rintro rfl
    exact represents.unique represents'

theorem size_eq (represents : s.Represents kinds) : s.size = kinds.card := by
  have bits : ((List.range 64).filter fun i => s.bits.getLsbD i).toFinset =
      kinds.image Kind.tag := by
    ext i
    rw [List.mem_toFinset, List.mem_filter, represents i, Finset.mem_image, List.mem_range,
      and_iff_right_iff_imp]
    rintro ⟨k, -, rfl⟩
    exact k.tag_lt.trans (by decide)
  calc
    s.size = ((List.range 64).filter fun i => s.bits.getLsbD i).length :=
    List.countP_eq_length_filter
    _ = (kinds.image Kind.tag).card := by
      rw [← bits, List.toFinset_card_of_nodup (List.nodup_range.filter _)]
    _ = kinds.card := Finset.card_image_of_injective kinds fun _ _ => Kind.tag_injective

theorem toFinset_toList (represents : s.Represents kinds) : s.toList.toFinset = kinds := by
  ext k
  rw [List.mem_toFinset, mem_toList, represents.contains_iff]

end Represents

theorem pairwise_toList (s : KindSet) : s.toList.Pairwise fun a b => a.tag < b.tag :=
  Kind.pairwise_all.filter s.contains

/-- A way to make a set of kinds, from the sets that have names and from lists. -/
inductive Combination where
  | empty | all | trivia | tokens | nodes | children
  | ofList (kinds : List Kind)
  | insert (c : Combination) (k : Kind)
  | union (c d : Combination)
  | difference (c d : Combination)

namespace Combination

def made : Combination → KindSet
  | .empty => .empty
  | .all => .all
  | .trivia => .trivia
  | .tokens => .tokens
  | .nodes => .nodes
  | .children => .children
  | .ofList kinds => .ofList kinds
  | .insert c k => c.made.insert k
  | .union c d => c.made.union d.made
  | .difference c d => c.made.difference d.made

/-- The kinds that a combination is about. The tags are given to the kinds class by class: eight to
trivia, the next twenty-two to tokens, and the others to nodes. -/
def members : Combination → Finset Kind
  | .empty => ∅
  | .all => Finset.univ
  | .trivia => {k | k.tag < 8}
  | .tokens => {k | 8 ≤ k.tag ∧ k.tag < 30}
  | .nodes => {k | 30 ≤ k.tag}
  | .children => {k | 8 ≤ k.tag}
  | .ofList kinds => kinds.toFinset
  | .insert c k => Insert.insert k c.members
  | .union c d => c.members ∪ d.members
  | .difference c d => c.members \ d.members

theorem represents_trivia : KindSet.trivia.Represents trivia.members := .ofList (by decide +kernel)

theorem represents_tokens : KindSet.tokens.Represents tokens.members := .ofList (by decide +kernel)

theorem represents_nodes : KindSet.nodes.Represents nodes.members := by
  have rest : all.members \ (trivia.members ∪ tokens.members) = nodes.members := by decide +kernel
  have whole : KindSet.all.Represents all.members := .ofList rfl
  exact rest ▸ whole.difference (represents_trivia.union represents_tokens)

theorem represents_children : KindSet.children.Represents children.members := by
  have both : tokens.members ∪ nodes.members = children.members := by decide +kernel
  exact both ▸ represents_tokens.union represents_nodes

/-- Every combination makes a set of the kinds that it is about. -/
theorem represents (c : Combination) : c.made.Represents c.members := by
  induction c with
  | empty => exact .empty
  | all => exact .ofList rfl
  | trivia => exact represents_trivia
  | tokens => exact represents_tokens
  | nodes => exact represents_nodes
  | children => exact represents_children
  | ofList kinds => exact .ofList rfl
  | insert c k ih => exact ih.insert k
  | union c d ihC ihD => exact ihC.union ihD
  | difference c d ihC ihD => exact ihC.difference ihD

/-- Whatever sets are combined, the result has the members that it should have and no bit that is
not at the tag of one. So two results are equal exactly if their members are, the size of a result
is the number of its members, and it is empty if there are none. The members are listed once each in
the order of their tags, and that list makes the result again. -/
theorem made_faithful (c : Combination) :
    (∀ k, c.made.contains k = true ↔ k ∈ c.members) ∧
      (∀ i, c.made.bits.getLsbD i = true → ∃ k ∈ c.members, k.tag = i) ∧
      (∀ d : Combination, (c.made == d.made) = true ↔ c.members = d.members) ∧
      c.made.size = c.members.card ∧
      (c.made.isEmpty = true ↔ c.members.card = 0) ∧
      (∀ k, k ∈ c.made.toList ↔ k ∈ c.members) ∧
      (c.made.toList.Pairwise fun a b => a.tag < b.tag) ∧
      KindSet.ofList c.made.toList = c.made := by
  have own := c.represents
  have size := own.size_eq
  have again : (KindSet.ofList c.made.toList).Represents c.members := .ofList own.toFinset_toList
  refine ⟨own.contains_iff, fun i => (own i).1, fun d => own.beq_iff d.represents, size, ?_,
    fun k => ?_, c.made.pairwise_toList, again.unique own⟩
  · rw [isEmpty, beq_iff_eq, size]
  · rw [mem_toList, own.contains_iff]

example : (Combination.ofList [.dot, .comma, .dot]).made.toList = [.comma, .dot] := by decide

end Combination

end KindSet

end GreenTree
