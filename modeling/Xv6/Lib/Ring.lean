import Mathlib

/-! Circular doubly linked lists threaded through a sentinel node, the way C
code keeps intrusive lists: every node has a `next` and a `prev` field and the
sentinel both starts and ends the ring. The pointers are tied to a logical
order by a chain of "`x->next == y` and `y->prev == x`" pairs; the usual unlink
and push-to-front writes, and the loop that walks the ring until it is back at
the sentinel, are specified against that order. -/

namespace Xv6.Lib

/-- A node of a ring: the sentinel or an element. -/
inductive Node (α : Type) where
  | head
  | item (a : α)
  deriving DecidableEq, Repr

/-- The `next` and `prev` fields of every node. -/
structure Links (α : Type) where
  next : Node α → Node α
  prev : Node α → Node α

namespace Links

variable {α : Type} [DecidableEq α]

/-- `x->next = y`. -/
def setNext (links : Links α) (x y : Node α) : Links α :=
  { links with next := Function.update links.next x y }

/-- `x->prev = y`. -/
def setPrev (links : Links α) (x y : Node α) : Links α :=
  { links with prev := Function.update links.prev x y }

/-- `x->next->prev = x->prev; x->prev->next = x->next;` -/
def unlink (links : Links α) (x : Node α) : Links α :=
  let links := links.setPrev (links.next x) (links.prev x)
  links.setNext (links.prev x) (links.next x)

/-- `x->next = head.next; x->prev = &head; head.next->prev = x; head.next = x;` -/
def pushFront (links : Links α) (x : Node α) : Links α :=
  let links := links.setNext x (links.next .head)
  let links := links.setPrev x .head
  let links := links.setPrev (links.next .head) x
  links.setNext .head x

variable {links : Links α} {x y : Node α} {a : α}

@[simp] theorem setNext_next : (links.setNext x y).next = Function.update links.next x y := rfl

@[simp] theorem setNext_prev : (links.setNext x y).prev = links.prev := rfl

@[simp] theorem setPrev_prev : (links.setPrev x y).prev = Function.update links.prev x y := rfl

@[simp] theorem setPrev_next : (links.setPrev x y).next = links.next := rfl

theorem unlink_next :
    (links.unlink x).next = Function.update links.next (links.prev x) (links.next x) := by
  by_cases same : x = links.next x
  · simp [unlink, ← same]
  · simp [unlink, Function.update_of_ne same]

theorem unlink_prev :
    (links.unlink x).prev = Function.update links.prev (links.next x) (links.prev x) := by
  simp [unlink]

theorem pushFront_next :
    (links.pushFront (.item a)).next =
      Function.update (Function.update links.next (.item a) (links.next .head)) .head (.item a) := by
  simp [pushFront]

theorem pushFront_prev :
    (links.pushFront (.item a)).prev =
      Function.update (Function.update links.prev (.item a) .head) (links.next .head) (.item a) := by
  simp [pushFront]

end Links

variable {α : Type} {links links' : Links α} {a : α}

/-- `x->next == y` and `y->prev == x`. -/
def Linked (links : Links α) (x y : Node α) : Prop :=
  links.next x = y ∧ links.prev y = x

/-- The sentinel, the elements of `order` in order, and the sentinel again. -/
def ringNodes (order : List α) : List (Node α) :=
  .head :: (order.map .item ++ [.head])

/-- The links thread the ring through `order`: forwards along `next`,
backwards along `prev`. -/
def Ring (links : Links α) (order : List α) : Prop :=
  (ringNodes order).IsChain (Linked links)

theorem ringNodes_reverse (order : List α) :
    (ringNodes order).reverse = ringNodes order.reverse := by
  simp [ringNodes, List.map_reverse]

theorem item_ne_head : (Node.item a : Node α) ≠ .head := nofun

theorem map_item_nodup {l : List α} (nodup : l.Nodup) : (l.map Node.item).Nodup :=
  List.Nodup.map (fun _ _ same => Node.item.inj same) nodup

theorem isChain_linked_congr {l : List (Node α)} (chain : l.IsChain (Linked links))
    (next : ∀ x ∈ l.dropLast, links'.next x = links.next x)
    (prev : ∀ y ∈ l.tail, links'.prev y = links.prev y) : l.IsChain (Linked links') := by
  induction chain with
  | nil => exact .nil
  | singleton x => exact .singleton x
  | @cons_cons x y rest linked _ ih =>
    refine .cons_cons ⟨?_, ?_⟩ (ih ?_ ?_)
    · rw [next x (by simp)]
      exact linked.1
    · rw [prev y (by simp)]
      exact linked.2
    · intro u member
      exact next u (by simp [List.dropLast_cons_cons, member])
    · intro v member
      exact prev v (by simp_all)

theorem ring_nil : Ring links [] ↔ links.next .head = .head ∧ links.prev .head = .head := by
  simp [Ring, ringNodes, Linked]

section Writes

variable [DecidableEq α]

theorem Ring.pushFront {order : List α} (ring : Ring links order) (nodup : (a :: order).Nodup) :
    Ring (links.pushFront (.item a)) (a :: order) := by
  obtain ⟨fresh, distinct⟩ := List.nodup_cons.mp nodup
  obtain ⟨first, rest, tail⟩ :
      ∃ first rest, order.map Node.item ++ [.head] = first :: rest := by
    cases order with
    | nil => exact ⟨.head, [], rfl⟩
    | cons b bs => exact ⟨.item b, bs.map Node.item ++ [.head], rfl⟩
  have tailNodup : (first :: rest).Nodup := by
    rw [← tail, List.nodup_append]
    exact ⟨map_item_nodup distinct, List.nodup_singleton _, by simp⟩
  have notItem : ∀ u ∈ first :: rest, u ≠ .item a := by
    rw [← tail]
    intro u member same
    subst same
    simp [fresh] at member
  unfold Ring ringNodes at ring ⊢
  rw [tail] at ring
  rw [List.map_cons, List.cons_append, tail]
  obtain ⟨linked, chain⟩ := List.isChain_cons_cons.mp ring
  have firstNe : first ≠ .item a := notItem first (by simp)
  refine List.isChain_cons_cons.mpr ⟨?_, List.isChain_cons_cons.mpr ⟨?_, ?_⟩⟩
  · constructor
    · simp [Links.pushFront_next]
    · simp [Links.pushFront_prev, linked.1, Function.update_of_ne firstNe.symm]
  · constructor
    · simp [Links.pushFront_next, linked.1]
    · simp [Links.pushFront_prev, linked.1]
  · apply isChain_linked_congr chain
    · intro u member
      have fromRest : u ∈ first :: rest := List.mem_of_mem_dropLast member
      have notHead : u ≠ .head := by
        rw [← tail, List.dropLast_concat] at member
        simp only [List.mem_map] at member
        obtain ⟨b, -, rfl⟩ := member
        exact item_ne_head
      simp [Links.pushFront_next, Function.update_of_ne notHead,
        Function.update_of_ne (notItem u fromRest)]
    · intro v member
      have notFirst : v ≠ first := fun same => (List.nodup_cons.mp tailNodup).1 (same ▸ member)
      simp [Links.pushFront_prev, linked.1, Function.update_of_ne notFirst,
        Function.update_of_ne (notItem v (List.mem_cons_of_mem _ member))]

theorem Ring.unlink {pre post : List α} (ring : Ring links (pre ++ a :: post))
    (nodup : (pre ++ a :: post).Nodup) : Ring (links.unlink (.item a)) (pre ++ post) := by
  have itemsNodup := map_item_nodup nodup
  simp only [List.map_append, List.map_cons] at itemsNodup
  obtain ⟨before, pred, front⟩ :
      ∃ before pred, (Node.head :: pre.map Node.item) = before ++ [pred] :=
    ⟨_, _, (List.dropLast_append_getLast (List.cons_ne_nil _ _)).symm⟩
  obtain ⟨succ, after, back⟩ :
      ∃ succ after, post.map Node.item ++ [.head] = succ :: after := by
    cases post with
    | nil => exact ⟨.head, [], rfl⟩
    | cons b bs => exact ⟨.item b, bs.map Node.item ++ [.head], rfl⟩
  have frontNodup : (before ++ [pred]).Nodup := by
    rw [← front, List.nodup_cons]
    exact ⟨by simp, (List.nodup_append.mp itemsNodup).1⟩
  have backNodup : (succ :: after).Nodup := by
    rw [← back, List.nodup_append]
    refine ⟨?_, List.nodup_singleton _, by simp⟩
    exact (List.nodup_cons.mp (List.nodup_append.mp itemsNodup).2.1).2
  have apart : ∀ u ∈ pre.map Node.item, ∀ v ∈ post.map Node.item ++ [.head], u ≠ v := by
    intro u uMember v vMember same
    subst same
    simp only [List.mem_map] at uMember
    obtain ⟨d, dPre, rfl⟩ := uMember
    simp only [List.mem_append, List.mem_map, List.mem_singleton] at vMember
    rcases vMember with ⟨c, cPost, same⟩ | headSame
    · exact (List.nodup_append.mp nodup).2.2 d dPre c (by simp [cPost]) (Node.item.inj same).symm
    · exact item_ne_head headSame
  have succMember : succ ∈ post.map Node.item ++ [.head] := by
    rw [back]
    exact List.mem_cons_self
  have predMember : pred ∈ Node.head :: pre.map Node.item := by
    rw [front]
    exact List.mem_concat_self
  have oldNodes : ringNodes (pre ++ a :: post) = before ++ pred :: Node.item a :: succ :: after := by
    have split : ringNodes (pre ++ a :: post) =
        (Node.head :: pre.map Node.item) ++ Node.item a :: (post.map Node.item ++ [.head]) := by
      simp [ringNodes]
    rw [split, front, back, List.append_assoc, List.singleton_append]
  have newNodes : ringNodes (pre ++ post) = before ++ pred :: succ :: after := by
    have split : ringNodes (pre ++ post) =
        (Node.head :: pre.map Node.item) ++ (post.map Node.item ++ [.head]) := by
      simp [ringNodes]
    rw [split, front, back, List.append_assoc, List.singleton_append]
  have oldRing : (before ++ pred :: Node.item a :: succ :: after).IsChain (Linked links) := by
    rw [← oldNodes]
    exact ring
  obtain ⟨frontChain, predLinked, aChain⟩ := List.isChain_append_cons_cons.mp oldRing
  obtain ⟨succLinked, backChain⟩ := List.isChain_cons_cons.mp aChain
  have unlinkNext : (links.unlink (.item a)).next =
      Function.update links.next (links.prev (.item a)) (links.next (.item a)) := Links.unlink_next
  have unlinkPrev : (links.unlink (.item a)).prev =
      Function.update links.prev (links.next (.item a)) (links.prev (.item a)) := Links.unlink_prev
  rw [predLinked.2, succLinked.1] at unlinkNext unlinkPrev
  unfold Ring
  rw [newNodes]
  refine List.isChain_append_cons_cons.mpr ⟨?_, ⟨?_, ?_⟩, ?_⟩
  · apply isChain_linked_congr frontChain
    · intro u member
      rw [List.dropLast_concat] at member
      have notPred : u ≠ pred := fun same => (List.nodup_append.mp frontNodup).2.2 u member pred
        (List.mem_singleton_self _) same
      rw [unlinkNext, Function.update_of_ne notPred]
    · intro v member
      rw [← front, List.tail_cons] at member
      rw [unlinkPrev, Function.update_of_ne (apart v member succ succMember)]
  · simp [unlinkNext]
  · simp [unlinkPrev]
  · apply isChain_linked_congr backChain
    · intro u member
      rw [← back, List.dropLast_concat] at member
      have notPred : u ≠ pred := by
        intro same
        subst same
        rcases List.mem_cons.mp predMember with headSame | preMember
        · simp [headSame] at member
        · exact apart u preMember u (List.mem_append_left _ member) rfl
      rw [unlinkNext, Function.update_of_ne notPred]
    · intro v member
      have notSucc : v ≠ succ := fun same => (List.nodup_cons.mp backNodup).1 (same ▸ member)
      rw [unlinkPrev, Function.update_of_ne notSucc]

theorem Ring.moveFront {order : List α} (ring : Ring links order) (nodup : order.Nodup)
    (member : a ∈ order) :
    Ring ((links.unlink (.item a)).pushFront (.item a)) (a :: order.erase a) := by
  obtain ⟨pre, post, rfl⟩ := List.append_of_mem member
  have notPre : a ∉ pre := fun inPre =>
    (List.nodup_append.mp nodup).2.2 a inPre a List.mem_cons_self rfl
  rw [List.erase_append_right _ notPre, List.erase_cons_head]
  exact (ring.unlink nodup).pushFront (List.nodup_middle.mp nodup)

theorem Ring.foldl_pushFront {order items : List α} (ring : Ring links order)
    (nodup : (items.reverse ++ order).Nodup) :
    Ring (items.foldl (fun links a => links.pushFront (.item a)) links) (items.reverse ++ order) := by
  induction items generalizing links order with
  | nil => simpa using ring
  | cons a items ih =>
    have rearranged : (a :: items).reverse ++ order = items.reverse ++ a :: order := by simp
    rw [List.foldl_cons, rearranged]
    rw [rearranged] at nodup
    exact ih (ring.pushFront (List.nodup_append.mp nodup).2.1) nodup

end Writes

/-- `for(x = start; x != &head; x = step(x)) if(found(x)) return x;`, run for at
most `fuel` elements: `some (some a)` when it returns `a`, `some none` when it
is back at the sentinel, `none` when it has not stopped after `fuel` elements. -/
def scan (step : Node α → Node α) (found : α → Bool) : Nat → Node α → Option (Option α)
  | _, .head => some none
  | 0, .item _ => none
  | fuel + 1, .item a => if found a then some (some a) else scan step found fuel (step (.item a))

theorem scan_of_isChain {step : Node α → Node α} {found : α → Bool} {x : Node α} {l : List α}
    {fuel : Nat} (chain : (x :: (l.map .item ++ [.head])).IsChain (fun u v => step u = v))
    (enough : l.length ≤ fuel) : scan step found fuel (step x) = some (l.find? found) := by
  induction l generalizing x fuel with
  | nil =>
    have last : step x = .head := by simpa using chain
    simp [last, scan]
  | cons b l ih =>
    simp only [List.map_cons, List.cons_append] at chain
    obtain ⟨first, chain⟩ := List.isChain_cons_cons.mp chain
    obtain ⟨fuel, rfl⟩ : ∃ rest, fuel = rest + 1 := ⟨fuel - 1, by simp at enough; omega⟩
    rw [first, scan, List.find?_cons]
    cases found b with
    | true => rfl
    | false => exact ih chain (by simpa using enough)

variable {order : List α} {found : α → Bool} {fuel : Nat}

theorem Ring.scan_next (ring : Ring links order) (enough : order.length ≤ fuel) :
    scan links.next found fuel (links.next .head) = some (order.find? found) :=
  scan_of_isChain (ring.imp fun _ _ linked => linked.1) enough

theorem Ring.scan_prev (ring : Ring links order) (enough : order.length ≤ fuel) :
    scan links.prev found fuel (links.prev .head) = some (order.reverse.find? found) := by
  have backwards : (ringNodes order.reverse).IsChain (fun u v => links.prev u = v) := by
    rw [← ringNodes_reverse]
    exact List.isChain_reverse.mpr (ring.imp fun _ _ linked => linked.2)
  exact scan_of_isChain backwards (by simpa using enough)

end Xv6.Lib
