import Mathlib.Data.List.Nodup
import MiniatureOs.Util.IntrusiveLinkedList

/-! # The list as a double-ended queue

The nodes that the list holds form a sequence, and each operation is compared with that
on the sequence. The links represent the sequence in both directions. Pushes of fresh
nodes and `pop_back` keep that, and `pop_front` keeps it exactly for fewer than two nodes.
-/

namespace MiniatureOs

open LinkChain

namespace IntrusiveLinkedList

variable {list list' : IntrusiveLinkedList} {held used : List NonNull} {node : NonNull}

inductive Op where
  | pushFront (node : NonNull)
  | pushBack (node : NonNull)
  | popFront
  | popBack
  deriving DecidableEq

def exec (list : IntrusiveLinkedList) : Op → Checked (Option NonNull × IntrusiveLinkedList)
  | .pushFront node => do return (none, ← list.pushFront node)
  | .pushBack node => do return (none, ← list.pushBack node)
  | .popFront => list.popFront
  | .popBack => list.popBack

def dequeExec (held : List NonNull) : Op → Option NonNull × List NonNull
  | .pushFront node => (none, node :: held)
  | .pushBack node => (none, held ++ [node])
  | .popFront => (held.head?, held.tail)
  | .popBack => (held.getLast?, held.dropLast)

def Op.pushed : Op → List NonNull
  | .pushFront node | .pushBack node => [node]
  | .popFront | .popBack => []

/-- The list says of the sequence what it should: the length, whether it is empty, and
the nodes in both directions. -/
structure Represents (list : IntrusiveLinkedList) (held : List NonNull) : Prop where
  len : list.len = held.length
  empty : list.isEmpty = true ↔ list.len = 0
  forward : Follows list.next list.head held
  backward : Follows list.prev list.tail held.reverse

/-- In every state of the run the list represents the sequence, and every call returns what
the call on the sequence returns. -/
def ActsAsDeque (list : IntrusiveLinkedList) (held : List NonNull) : List Op → Prop
  | [] => Represents list held
  | op :: ops => Represents list held ∧ ∃ list',
      list.exec op = .ok ((dequeExec held op).1, list') ∧
      ActsAsDeque list' (dequeExec held op).2 ops

/-- No call of `pop_front` in the run finds two nodes or more. -/
def PopsFrontShort (held : List NonNull) : List Op → Prop
  | [] => True
  | op :: ops => (op = .popFront → held.length < 2) ∧ PopsFrontShort (dequeExec held op).2 ops

/-- The representation, with what pushes of fresh nodes need: the nodes are distinct, they
are among the used ones, and all others are as they were made. -/
structure Linked (list : IntrusiveLinkedList) (held used : List NonNull) : Prop where
  len : list.len = held.length
  forward : Follows list.next list.head held
  backward : Follows list.prev list.tail held.reverse
  nodup : held.Nodup
  mem : ∀ node ∈ held, node ∈ used
  fresh : ∀ node, node ∉ used → list.nodes node = .new

theorem linked_new : Linked new [] [] where
  len := rfl
  forward := rfl
  backward := rfl
  nodup := List.nodup_nil
  mem := by simp
  fresh := fun _ _ => rfl

theorem Linked.head_eq (h : Linked list held used) : list.head = held.head? :=
  h.forward.start_eq

theorem Linked.tail_eq (h : Linked list held used) : list.tail = held.getLast? := by
  rw [h.backward.start_eq, List.head?_reverse]

theorem Linked.represents (h : Linked list held used) : Represents list held where
  len := h.len
  empty := by
    rw [isEmpty, h.head_eq, h.len, Option.isNone_iff_eq_none, List.head?_eq_none_iff,
      List.length_eq_zero_iff]
  forward := h.forward
  backward := h.backward

/-! ## Pushes -/

theorem Linked.len_push (h : Linked list held used) (hnode : node ∉ used) :
    Checked.add 64 list.len 1 = .ok (held.length + 1) := by
  have hnot : node ∉ held := fun hmem => hnode (h.mem node hmem)
  have hlt := NonNull.length_lt_of_nodup (List.nodup_cons.mpr ⟨hnot, h.nodup⟩)
  rw [h.len]
  exact Checked.add_of_lt hlt

theorem Linked.linkFront_nil (h : Linked list [] used) (hnode : node ∉ used) :
    Linked { list.linkFront node with len := 1 } [node] (node :: used) := by
  have hnew := h.fresh node hnode
  have hlink : list.linkFront node = { list with head := some node, tail := some node } := by
    rw [IntrusiveLinkedList.linkFront, h.head_eq]
    rfl
  rw [hlink]
  refine ⟨rfl, ⟨rfl, ?_⟩, ⟨rfl, ?_⟩, List.nodup_singleton node, by simp, ?_⟩
  · change (list.nodes node).next = none
    rw [hnew]
    rfl
  · change (list.nodes node).prev = none
    rw [hnew]
    rfl
  · intro other hother
    exact h.fresh other fun hmem => hother (List.mem_cons_of_mem _ hmem)

/-- The node that was the first one gets a predecessor. -/
theorem Linked.linkFront_cons {first : NonNull} (h : Linked list (first :: held) used)
    (hnode : node ∉ used) :
    Linked { list.linkFront node with len := (first :: held).length + 1 }
      (node :: first :: held) (node :: used) := by
  have hnot : node ∉ first :: held := fun hmem => hnode (h.mem node hmem)
  have hhead : list.head = some first := h.head_eq
  have hlink : list.linkFront node =
      { (list.setNext node (some first)).setPrev first (some node) with
        head := some node } := by
    rw [IntrusiveLinkedList.linkFront, hhead]
  have hprev : list.prev node = none := by
    rw [prev, h.fresh node hnode]
    rfl
  have hfirst : node ≠ first := fun heq => hnot (heq ▸ List.mem_cons_self)
  have hlast : first ∉ held.reverse := by
    rw [List.mem_reverse]
    exact (List.nodup_cons.mp h.nodup).1
  rw [hlink]
  refine ⟨rfl, ?_, ?_, List.nodup_cons.mpr ⟨hnot, h.nodup⟩, ?_, ?_⟩
  · change Follows ((list.setNext node (some first)).setPrev first (some node)).next _ _
    rw [next_setPrev, next_setNext]
    have hpush := h.forward.push hnot
    rw [hhead] at hpush
    exact hpush
  · change Follows ((list.setNext node (some first)).setPrev first (some node)).prev list.tail _
    rw [prev_setPrev, prev_setNext, List.reverse_cons, List.reverse_cons, List.append_assoc]
    apply Follows.extend _ hlast hfirst hprev
    rw [← List.reverse_cons]
    exact h.backward
  · intro other hother
    cases List.mem_cons.mp hother with
    | inl heq => exact heq ▸ List.mem_cons_self
    | inr hmem => exact List.mem_cons_of_mem _ (h.mem other hmem)
  · intro other hother
    have hne : other ≠ node := fun heq => hother (heq ▸ List.mem_cons_self)
    have hne' : other ≠ first := fun heq =>
      hother (List.mem_cons_of_mem _ (heq ▸ h.mem first List.mem_cons_self))
    change Function.update (Function.update list.nodes node _) first _ other = .new
    rw [Function.update_of_ne hne', Function.update_of_ne hne]
    exact h.fresh other fun hmem => hother (List.mem_cons_of_mem _ hmem)

theorem Linked.linkFront (h : Linked list held used) (hnode : node ∉ used) :
    Linked { list.linkFront node with len := held.length + 1 } (node :: held)
      (node :: used) := by
  cases held with
  | nil => exact h.linkFront_nil hnode
  | cons first held => exact h.linkFront_cons hnode

def mirror (list : IntrusiveLinkedList) : IntrusiveLinkedList :=
  ⟨list.tail, list.head, list.len, fun node => ⟨list.prev node, list.next node⟩⟩

theorem Linked.mirror (h : Linked list held used) : Linked list.mirror held.reverse used where
  len := by
    rw [List.length_reverse]
    exact h.len
  forward := h.backward
  backward := by
    rw [List.reverse_reverse]
    exact h.forward
  nodup := List.nodup_reverse.mpr h.nodup
  mem := fun node hnode => h.mem node (List.mem_reverse.mp hnode)
  fresh := by
    intro node hnode
    change (⟨(list.nodes node).prev, (list.nodes node).next⟩ : ListNode) = .new
    rw [h.fresh node hnode]
    rfl

/-- `push_back` is `push_front` at the other end. -/
theorem linkBack_eq_mirror (list : IntrusiveLinkedList) (node : NonNull) :
    list.linkBack node = (list.mirror.linkFront node).mirror := by
  cases htail : list.tail with
  | none =>
      rw [linkBack, linkFront, htail, show list.mirror.head = none from htail]
      rfl
  | some tail =>
      rw [linkBack, linkFront, htail, show list.mirror.head = some tail from htail]
      refine eq_of_links ?_ ?_ ?_ ?_ ?_
      · rfl
      · rfl
      · rfl
      · change ((list.setNext tail (some node)).setPrev node (some tail)).next =
          ((list.mirror.setNext node (some tail)).setPrev tail (some node)).prev
        simp only [next_setPrev, next_setNext, prev_setPrev, prev_setNext]
        rfl
      · change ((list.setNext tail (some node)).setPrev node (some tail)).prev =
          ((list.mirror.setNext node (some tail)).setPrev tail (some node)).next
        simp only [prev_setPrev, prev_setNext, next_setPrev, next_setNext]
        rfl

theorem Linked.linkBack (h : Linked list held used) (hnode : node ∉ used) :
    Linked { list.linkBack node with len := held.length + 1 } (held ++ [node])
      (node :: used) := by
  have hfront := (h.mirror.linkFront hnode).mirror
  rw [List.reverse_cons, List.reverse_reverse, List.length_reverse] at hfront
  rw [linkBack_eq_mirror]
  exact hfront

theorem Linked.pushFront (h : Linked list held used) (hnode : node ∉ used) :
    ∃ list', list.pushFront node = .ok list' ∧ Linked list' (node :: held) (node :: used) := by
  refine ⟨_, ?_, h.linkFront hnode⟩
  rw [IntrusiveLinkedList.pushFront, h.len_push hnode]
  rfl

theorem Linked.pushBack (h : Linked list held used) (hnode : node ∉ used) :
    ∃ list', list.pushBack node = .ok list' ∧
      Linked list' (held ++ [node]) (node :: used) := by
  refine ⟨_, ?_, h.linkBack hnode⟩
  rw [IntrusiveLinkedList.pushBack, h.len_push hnode]
  rfl

/-! ## Pops -/

theorem ends_ne (hnodup : held.Nodup) (htwo : 2 ≤ held.length) :
    ∃ first last, held.head? = some first ∧ held.getLast? = some last ∧ first ≠ last := by
  cases held with
  | nil => simp at htwo
  | cons first rest =>
      have hrest : rest ≠ [] := by
        intro hnil
        simp [hnil] at htwo
      refine ⟨first, rest.getLast hrest, rfl, ?_, ?_⟩
      · rw [List.getLast?_cons_of_ne_nil hrest, List.getLast?_eq_getLast_of_ne_nil hrest]
      · intro heq
        exact (List.nodup_cons.mp hnodup).1 (heq ▸ List.getLast_mem hrest)

theorem Linked.clear (h : Linked list held used) :
    Linked { list with head := none, tail := none, len := 0 } [] used where
  len := rfl
  forward := rfl
  backward := rfl
  nodup := List.nodup_nil
  mem := by simp
  fresh := h.fresh

/-- With at most one node both pops do the same. -/
theorem Linked.popFront (h : Linked list held used) (hshort : held.length < 2) :
    ∃ list', list.popFront = .ok (held.head?, list') ∧ Linked list' held.tail used := by
  have hhead := h.head_eq
  have htail := h.tail_eq
  have hlen := h.len
  cases held with
  | nil =>
      refine ⟨list, ?_, h⟩
      rw [IntrusiveLinkedList.popFront, hhead]
      rfl
  | cons node rest =>
      cases rest with
      | nil =>
          refine ⟨_, ?_, h.clear⟩
          rw [IntrusiveLinkedList.popFront, hhead, htail, hlen]
          simp [Checked.unwrap, Checked.sub]
      | cons second rest =>
          rw [List.length_cons, List.length_cons] at hshort
          omega

/-- The new last node loses its successor. -/
theorem Linked.unlinkBack {last : NonNull} (h : Linked list (held ++ [node, last]) used) :
    Linked { list.unlinkBack last with len := (held ++ [node]).length } (held ++ [node])
      used := by
  have hbackward := h.backward
  rw [List.reverse_append] at hbackward
  have hprev : list.prev last = some node := hbackward.2.1
  have hunlink : list.unlinkBack last = { list.setNext node none with tail := some node } := by
    rw [IntrusiveLinkedList.unlinkBack, hprev]
  have hnodup := h.nodup
  rw [show held ++ [node, last] = held ++ [node] ++ [last] by simp] at hnodup
  obtain ⟨hnodup, _, _⟩ := List.nodup_append.mp hnodup
  have hnot : node ∉ held := by
    intro hmem
    exact (List.nodup_append.mp hnodup).2.2 node hmem node (by simp) rfl
  rw [hunlink]
  refine ⟨rfl, ?_, ?_, hnodup, ?_, ?_⟩
  · change Follows (list.setNext node none).next list.head _
    rw [next_setNext]
    exact h.forward.cut hnot
  · change Follows (list.setNext node none).prev (some node) _
    rw [prev_setNext, ← hprev, List.reverse_append]
    exact hbackward.2
  · intro other hother
    apply h.mem
    rw [show held ++ [node, last] = held ++ [node] ++ [last] by simp]
    exact List.mem_append_left _ hother
  · intro other hother
    have hne : other ≠ node := fun heq => hother (heq ▸ h.mem node (by simp))
    change Function.update list.nodes node _ other = .new
    rw [Function.update_of_ne hne]
    exact h.fresh other hother

theorem Linked.popBack (h : Linked list held used) :
    ∃ list', list.popBack = .ok (held.getLast?, list') ∧ Linked list' held.dropLast used := by
  have hhead := h.head_eq
  have htail := h.tail_eq
  have hlen := h.len
  cases List.eq_nil_or_concat' held with
  | inl hnil =>
      subst hnil
      refine ⟨list, ?_, h⟩
      rw [IntrusiveLinkedList.popBack, htail]
      rfl
  | inr hconcat =>
      obtain ⟨before, last, rfl⟩ := hconcat
      rw [List.getLast?_concat] at htail ⊢
      rw [List.dropLast_concat]
      cases List.eq_nil_or_concat' before with
      | inl hnil =>
          subst hnil
          refine ⟨_, ?_, h.clear⟩
          rw [IntrusiveLinkedList.popBack, htail, hhead, hlen]
          simp [Checked.unwrap, Checked.sub]
      | inr hconcat =>
          obtain ⟨before, node, rfl⟩ := hconcat
          obtain ⟨first, last', hfirst, hlast, hne⟩ := ends_ne h.nodup (by simp)
          rw [List.getLast?_concat] at hlast
          obtain rfl := Option.some.inj hlast
          rw [List.append_assoc] at h
          refine ⟨_, ?_, h.unlinkBack⟩
          rw [IntrusiveLinkedList.popBack, htail, hhead, hfirst, hlen]
          simp [Checked.unwrap, Checked.sub, hne]

/-- With two nodes or more the new head loses its successor and keeps its predecessor. -/
theorem Linked.not_represents_popFront (h : Linked list held used) (htwo : 2 ≤ held.length)
    {result : Option NonNull} (hpop : list.popFront = .ok (result, list')) :
    ¬ Represents list' held.tail := by
  intro hrepresents
  obtain ⟨first, last, hfirst, hlast, hne⟩ := ends_ne h.nodup htwo
  cases held with
  | nil => simp at htwo
  | cons first' rest =>
      obtain rfl : first' = first := Option.some.inj hfirst
      cases rest with
      | nil => simp at htwo
      | cons second rest =>
          have hnext : list.next first' = some second := h.forward.2.1
          have hpopped : list.popFront = .ok (some first',
              { list.setNext second none with head := some second, len := rest.length + 1 }) := by
            rw [IntrusiveLinkedList.popFront, h.head_eq, h.tail_eq, hlast, h.len]
            simp [Checked.unwrap, Checked.sub, hne, IntrusiveLinkedList.unlinkFront, hnext]
          have hlinks : list'.next = Function.update list.next second none ∧
              list'.prev = list.prev := by
            obtain ⟨_, rfl⟩ := Prod.mk.inj (Except.ok.inj (hpopped.symm.trans hpop))
            exact ⟨next_setNext _ _ _, prev_setNext _ _ _⟩
          cases rest with
          | nil =>
              -- the only node left still links back to the one that was taken
              have hback : list.prev second = some first' := h.backward.2.1
              have hend : list'.prev second = none := hrepresents.backward.2
              rw [hlinks.2, hback] at hend
              cases hend
          | cons third rest =>
              -- the chain is cut behind its head
              have hcut := hrepresents.forward.2.1
              rw [hlinks.1, Function.update_self] at hcut
              cases hcut

/-! ## Runs -/

theorem ActsAsDeque.represents {ops : List Op} (h : ActsAsDeque list held ops) :
    Represents list held := by
  cases ops with
  | nil => exact h
  | cons op ops => exact h.1

/-- A call that does not take the first of several nodes acts as on the sequence. -/
theorem Linked.exec {op : Op} (h : Linked list held used)
    (hshort : op = .popFront → held.length < 2) (hnew : ∀ node ∈ op.pushed, node ∉ used) :
    ∃ list', list.exec op = .ok ((dequeExec held op).1, list') ∧
      Linked list' (dequeExec held op).2 (op.pushed ++ used) := by
  cases op with
  | pushFront node =>
      obtain ⟨list', hpush, hlinked⟩ := h.pushFront (hnew node List.mem_cons_self)
      exact ⟨list', by rw [IntrusiveLinkedList.exec, hpush]; rfl, hlinked⟩
  | pushBack node =>
      obtain ⟨list', hpush, hlinked⟩ := h.pushBack (hnew node List.mem_cons_self)
      exact ⟨list', by rw [IntrusiveLinkedList.exec, hpush]; rfl, hlinked⟩
  | popFront => exact h.popFront (hshort rfl)
  | popBack => exact h.popBack

theorem Linked.actsAsDeque_iff {ops : List Op} (h : Linked list held used)
    (hfresh : (ops.flatMap Op.pushed).Nodup)
    (hnew : ∀ node ∈ ops.flatMap Op.pushed, node ∉ used) :
    ActsAsDeque list held ops ↔ PopsFrontShort held ops := by
  induction ops generalizing list held used with
  | nil => exact ⟨fun _ => trivial, fun _ => h.represents⟩
  | cons op ops ih =>
      rw [List.flatMap_cons] at hfresh hnew
      obtain ⟨_, hfresh, hapart⟩ := List.nodup_append.mp hfresh
      by_cases hshort : op = .popFront → held.length < 2
      · obtain ⟨list', hexec, hlinked⟩ :=
          h.exec hshort fun node hnode => hnew node (List.mem_append_left _ hnode)
        have hrest := ih hlinked hfresh (by
          intro node hnode hmem
          cases List.mem_append.mp hmem with
          | inl hpushed => exact hapart node hpushed node hnode rfl
          | inr hused => exact hnew node (List.mem_append_right _ hnode) hused)
        constructor
        · intro hacts
          obtain ⟨_, other, hexec', hacts⟩ := hacts
          rw [hexec] at hexec'
          obtain rfl := congrArg Prod.snd (Except.ok.inj hexec')
          exact ⟨hshort, hrest.mp hacts⟩
        · intro hpops
          exact ⟨h.represents, list', hexec, hrest.mpr hpops.2⟩
      · obtain ⟨rfl, hlong⟩ := Classical.not_imp.mp hshort
        constructor
        · intro hacts
          obtain ⟨_, list', hexec, hacts⟩ := hacts
          exact absurd hacts.represents
            (h.not_represents_popFront (Nat.le_of_not_lt hlong) hexec)
        · intro hpops
          exact absurd hpops.1 hshort

/-- A run of calls that push fresh nodes acts as a double-ended queue exactly when no
`pop_front` in it finds two nodes or more. -/
theorem actsAsDeque_new_iff {ops : List Op} (hfresh : (ops.flatMap Op.pushed).Nodup) :
    ActsAsDeque new [] ops ↔ PopsFrontShort [] ops :=
  linked_new.actsAsDeque_iff hfresh fun _ _ => List.not_mem_nil

def nodeA : NonNull := ⟨0x1000, by decide, by decide⟩

def nodeB : NonNull := ⟨0x2000, by decide, by decide⟩

theorem actsAsDeque_pops_back :
    ActsAsDeque new [] [.pushBack nodeA, .pushFront nodeB, .popBack, .popFront, .popFront] :=
  (actsAsDeque_new_iff (by decide)).mpr (by simp [PopsFrontShort, dequeExec])

/-- After the first of two nodes is taken, the other one still links back to it. -/
theorem not_actsAsDeque_pops_front :
    ([.pushBack nodeA, .pushBack nodeB, .popFront].flatMap Op.pushed).Nodup ∧
      ¬ ActsAsDeque new [] [.pushBack nodeA, .pushBack nodeB, .popFront] := by
  have hfresh : ([.pushBack nodeA, .pushBack nodeB, .popFront].flatMap Op.pushed).Nodup := by
    decide
  refine ⟨hfresh, ?_⟩
  rw [linked_new.actsAsDeque_iff hfresh fun _ _ => List.not_mem_nil]
  intro hpops
  exact absurd (hpops.2.2.1 rfl) (by decide)

-- the third of three nodes is lost
example : (([Op.pushBack nodeA, .pushBack nodeB, .pushBack ⟨0x3000, by decide, by decide⟩,
    .popFront, .popFront, .popFront].foldlM (fun state op => exec state.2 op)
      (none, new) : Checked (Option NonNull × IntrusiveLinkedList)).map Prod.fst) =
      .ok none := rfl

end IntrusiveLinkedList

end MiniatureOs
