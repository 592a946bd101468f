import Sshelter.Config.Reorder
import Sshelter.Lib.Selection
import Sshelter.Verified.HostText
import Sshelter.Verified.ConfigText

/-! # Reordering moves whole blocks

Reordering gives every Host slot a block and leaves everything else in place.  The work on numbers
and flags is the picking of blocks by alias; no block is taken twice or left behind.  What is
written out is read back as the same blocks, as long as the file was before.
-/

namespace Sshelter.Config

open Text

/-! ## The order of the blocks -/

theorem orderHosts_eq (order : List (List Char)) (hosts : List Item) :
    orderHosts order hosts = pickInOrder (fun alias_ item => item.hasAlias alias_) order hosts := by
  induction order generalizing hosts with
  | nil => rfl
  | cons alias_ order ih =>
    rw [orderHosts, pickInOrder]
    cases hosts.find? (Item.hasAlias alias_) with
    | none => exact ih hosts
    | some host => exact congrArg (host :: ·) (ih _)

namespace Reorder

/-- Whether the block of this number has the alias. -/
def answers (hosts : List Item) (alias_ : List Char) (i : Nat) : Bool := (hosts[i]?).any (Item.hasAlias alias_)

/-- The numbers not used yet. -/
def unused (count : Nat) (used : List Bool) : List Nat := (List.range count).filter fun i => !used.getD i false

theorem unused_nodup (count : Nat) (used : List Bool) : (unused count used).Nodup := List.nodup_range.filter _

theorem unused_set {count : Nat} {used : List Bool} (flags : used.length = count) {p : Nat → Bool} {i : Nat}
    (found : (unused count used).find? p = some i) : unused count (used.set i true) = (unused count used).eraseP p := by
  have inside : i < used.length := by
    have member := (List.mem_filter.mp (List.mem_of_find?_eq_some found)).1
    rw [flags]
    exact List.mem_range.mp member
  rw [eraseP_eq_erase found, (unused_nodup count used).erase_eq_filter, unused, unused, List.filter_filter]
  apply List.filter_congr
  intro j member
  by_cases same : j = i
  · subst same
    simp [inside]
  · simp [List.getD_eq_getElem?_getD, List.getElem?_set_ne (Ne.symm same), same]

/-- An alias takes the first number left whose block has it. -/
theorem placeAlias_eq (hosts : List Item) (named : List Nat) (used : List Bool) (alias_ : List Char) :
    placeAlias hosts (named, used) alias_ =
      match (unused hosts.length used).find? (answers hosts alias_) with
      | some i => (named ++ [i], used.set i true)
      | none => (named, used) := by
  rw [unused, List.find?_filter]
  simp only [Bool.decide_and, Bool.decide_eq_true]
  rfl

theorem placeAliases_eq (hosts : List Item) (order : List (List Char)) (named : List Nat) (used : List Bool)
    (flags : used.length = hosts.length) :
    (order.foldl (placeAlias hosts) (named, used)).1 ++ unused hosts.length (order.foldl (placeAlias hosts) (named, used)).2 =
      named ++ pickInOrder (answers hosts) order (unused hosts.length used) := by
  induction order generalizing named used with
  | nil => rfl
  | cons alias_ order ih =>
    rw [List.foldl_cons, placeAlias_eq, pickInOrder]
    cases found : (unused hosts.length used).find? (answers hosts alias_) with
    | none => exact ih named used flags
    | some i =>
      dsimp only
      rw [ih _ _ (by rw [List.length_set, flags]), unused_set flags found, List.append_assoc]
      rfl

/-- The numbers are picked like blocks, from all of them in order. -/
theorem newOrder_eq (hosts : List Item) (order : List (List Char)) :
    newOrder hosts order = pickInOrder (answers hosts) order (List.range hosts.length) := by
  have all : unused hosts.length (List.replicate hosts.length false) = List.range hosts.length := by
    rw [unused, List.filter_eq_self]
    intro i member
    simp [List.getD_eq_getElem?_getD, List.mem_range.mp member]
  have placed := placeAliases_eq hosts order [] (List.replicate hosts.length false) (by simp)
  rw [all, List.nil_append] at placed
  exact placed

theorem takeInOrder_eq {slots : List (Option Item)} {numbers : List Nat} (distinct : numbers.Nodup)
    (there : ∀ i ∈ numbers, (slots[i]?.join).isSome = true) :
    takeInOrder slots numbers = some (numbers.filterMap fun i => slots[i]?.join) := by
  induction numbers generalizing slots with
  | nil => rfl
  | cons i rest ih =>
    obtain ⟨others, distinct⟩ := List.nodup_cons.mp distinct
    obtain ⟨here, there⟩ := List.forall_mem_cons.mp there
    obtain ⟨host, here⟩ := Option.isSome_iff_exists.mp here
    -- the other numbers do not see the slot that is empty now
    have unchanged : ∀ j ∈ rest, (slots.set i none)[j]? = slots[j]? := by
      intro j member
      have differ : i ≠ j := by
        rintro rfl
        exact others member
      rw [List.getElem?_set_ne differ]
    have still : ∀ j ∈ rest, ((slots.set i none)[j]?.join).isSome = true := by
      intro j member
      rw [unchanged j member]
      exact there j member
    have later := ih distinct still
    have same : (rest.filterMap fun j => (slots.set i none)[j]?.join) = rest.filterMap fun j => slots[j]?.join :=
      List.filterMap_congr fun j member => by rw [unchanged j member]
    have first : ((i :: rest).filterMap fun i => slots[i]?.join) = host :: rest.filterMap fun i => slots[i]?.join :=
      List.filterMap_cons_some here
    rw [takeInOrder, here, later, same, first]
    rfl

/-- The block of a number. -/
def hostAt (hosts : List Item) (i : Nat) : Item := hosts.getD i (.Blank [])

theorem answers_eq (hosts : List Item) : answers hosts = fun alias_ i => (hostAt hosts i).hasAlias alias_ := by
  funext alias_ i
  rw [answers, hostAt, List.getD_eq_getElem?_getD]
  cases hosts[i]? <;> rfl

theorem map_hostAt (hosts : List Item) : (List.range hosts.length).map (hostAt hosts) = hosts := by
  apply List.ext_getElem
  · simp
  · intro i _ here
    simp [hostAt, here]

/-- Taking the blocks in the new order gives the blocks picked by alias. -/
theorem takeInOrder_newOrder (hosts : List Item) (order : List (List Char)) :
    takeInOrder (hosts.map some) (newOrder hosts order) = some (orderHosts order hosts) := by
  have perm := pickInOrder_perm (answers hosts) order (List.range hosts.length)
  rw [← newOrder_eq] at perm
  have taken : ∀ i ∈ newOrder hosts order, (hosts.map some)[i]?.join = some (hostAt hosts i) := by
    intro i member
    have here := List.mem_range.mp (perm.mem_iff.mp member)
    simp [hostAt, here]
  have there : ∀ i ∈ newOrder hosts order, ((hosts.map some)[i]?.join).isSome = true := by
    intro i member
    rw [taken i member]
    rfl
  have picked := pickInOrder_map (fun alias_ item => Item.hasAlias alias_ item) (hostAt hosts) order (List.range hosts.length)
  rw [map_hostAt, ← orderHosts_eq, ← answers_eq, ← newOrder_eq] at picked
  rw [takeInOrder_eq (perm.nodup_iff.mpr List.nodup_range) there, List.filterMap_congr taken, picked]
  exact congrArg some (congrFun List.filterMap_eq_map _)

/-! ## The slots -/

theorem hostIndices_shifted (rest : List Item) :
    (rest.zipIdx 1).filterMap (fun (item, i) => if item.isHost then some i else none) =
      (hostIndices rest).map (· + 1) := by
  rw [hostIndices, List.zipIdx_succ, List.filterMap_map, List.map_filterMap]
  apply List.filterMap_congr
  rintro ⟨item, i⟩ _
  cases here : item.isHost <;> simp [here]

theorem hostIndices_cons (item : Item) (rest : List Item) :
    hostIndices (item :: rest) = (if item.isHost then [0] else []) ++ (hostIndices rest).map (· + 1) := by
  rw [hostIndices, List.zipIdx_cons, List.filterMap_cons, hostIndices_shifted]
  dsimp only
  cases item.isHost with
  | false => rfl
  | true => rfl

theorem placeHosts_other {item : Item} (other : item.isHost = false) (rest hosts : List Item) :
    placeHosts (item :: rest) hosts = item :: placeHosts rest hosts := by
  cases item with
  | Host => cases other
  | _ => simp [placeHosts, Item.isHost]

theorem placeHosts_host {item : Item} (here : item.isHost = true) (rest : List Item) (host : Item) (hosts : List Item) :
    placeHosts (item :: rest) (host :: hosts) = host :: placeHosts rest hosts := by
  simp [placeHosts, here]

theorem takeHosts_succ (indices : List Nat) (item : Item) (rest : List Item) :
    takeHosts (indices.map (· + 1)) (item :: rest) = ((takeHosts indices rest).1, item :: (takeHosts indices rest).2) := by
  induction indices generalizing rest with
  | nil => rfl
  | cons i others ih =>
    rw [List.map_cons, takeHosts, takeHosts, List.set_cons_succ, ih]
    rfl

theorem foldl_set_succ (indices : List Nat) (hosts : List Item) (item : Item) (rest : List Item) :
    ((indices.map (· + 1)).zip hosts).foldl (fun items (i, host) => items.set i host) (item :: rest) =
      item :: (indices.zip hosts).foldl (fun items (i, host) => items.set i host) rest := by
  induction indices generalizing hosts rest with
  | nil => rfl
  | cons i others ih =>
    cases hosts with
    | nil => rfl
    | cons host hosts => exact ih hosts (rest.set i host)

/-- Taking out finds the blocks in order. -/
theorem takeHosts_hosts (items : List Item) : (takeHosts (hostIndices items) items).1 = items.filter Item.isHost := by
  induction items with
  | nil => rfl
  | cons item rest ih =>
    rw [hostIndices_cons]
    cases here : item.isHost with
    | false =>
      rw [List.filter_cons_of_neg (by simp [here]), if_neg Bool.false_ne_true, List.nil_append, takeHosts_succ]
      exact ih
    | true =>
      rw [List.filter_cons_of_pos here, if_pos rfl, List.singleton_append, takeHosts, List.set_cons_zero, takeHosts_succ, ← ih]
      rfl

/-- Putting back fills the slots. -/
theorem foldl_set_takeHosts (items hosts : List Item) (enough : (items.filter Item.isHost).length = hosts.length) :
    ((hostIndices items).zip hosts).foldl (fun items (i, host) => items.set i host)
      (takeHosts (hostIndices items) items).2 = placeHosts items hosts := by
  induction items generalizing hosts with
  | nil => rfl
  | cons item rest ih =>
    rw [hostIndices_cons]
    cases here : item.isHost with
    | false =>
      rw [List.filter_cons_of_neg (by simp [here])] at enough
      rw [if_neg Bool.false_ne_true, List.nil_append, takeHosts_succ, foldl_set_succ, ih hosts enough, placeHosts_other here]
    | true =>
      rw [List.filter_cons_of_pos here] at enough
      cases hosts with
      | nil => cases enough
      | cons host hosts =>
        rw [if_pos rfl, List.singleton_append, takeHosts, List.set_cons_zero, takeHosts_succ, List.zip_cons_cons,
          List.foldl_cons]
        dsimp only
        rw [List.set_cons_zero, foldl_set_succ, ih hosts (Nat.succ.inj enough), placeHosts_host here]

theorem length_orderHosts (order : List (List Char)) (hosts : List Item) : (orderHosts order hosts).length = hosts.length := by
  rw [orderHosts_eq]
  exact (pickInOrder_perm _ order hosts).length_eq

theorem length_hostIndices (items : List Item) : (hostIndices items).length = (items.filter Item.isHost).length := by
  induction items with
  | nil => rfl
  | cons item rest ih =>
    rw [hostIndices_cons, List.filter_cons]
    cases item.isHost with
    | false => simpa using ih
    | true => simpa using ih

theorem placeHosts_nil {items : List Item} (others : items.filter Item.isHost = []) (hosts : List Item) :
    placeHosts items hosts = items := by
  induction items with
  | nil => rfl
  | cons item rest ih =>
    obtain ⟨other, others⟩ := List.forall_mem_cons.mp (List.filter_eq_nil_iff.mp others)
    rw [placeHosts_other (by simpa using other), ih (List.filter_eq_nil_iff.mpr others)]

/-- The numbers and flags come to the picking of blocks, and nothing panics. -/
theorem reorderHosts_eq (items : List Item) (order : List (List Char)) :
    reorderHosts items order = some (Config.reorderHosts items order) := by
  have hosts := takeHosts_hosts items
  have placed := foldl_set_takeHosts items (orderHosts order (items.filter Item.isHost)) (length_orderHosts order _).symm
  unfold reorderHosts
  by_cases none_ : (hostIndices items).isEmpty = true
  · have others : items.filter Item.isHost = [] := by
      rw [List.isEmpty_iff] at none_
      rw [← List.length_eq_zero_iff, ← length_hostIndices, none_, List.length_nil]
    rw [Config.reorderHosts, placeHosts_nil others]
    dsimp only
    rw [if_pos none_]
    rfl
  · dsimp only
    rw [if_neg none_, hosts, takeInOrder_newOrder]
    exact congrArg some placed

end Reorder

/-! ## What stays in place -/

theorem placeHosts_append {top : List Item} (others : top.filter Item.isHost = []) (rest hosts : List Item) :
    placeHosts (top ++ rest) hosts = top ++ placeHosts rest hosts := by
  induction top with
  | nil => rfl
  | cons item top ih =>
    obtain ⟨other, others⟩ := List.forall_mem_cons.mp (List.filter_eq_nil_iff.mp others)
    rw [List.cons_append, Reorder.placeHosts_other (by simpa using other), ih (List.filter_eq_nil_iff.mpr others),
      List.cons_append]

/-- Slots and blocks that belong together. -/
structure Fills (items hosts : List Item) : Prop where
  enough : (items.filter Item.isHost).length = hosts.length
  blocks : ∀ host ∈ hosts, host.isHost = true

theorem Fills.other {item : Item} {rest hosts : List Item} (fills : Fills (item :: rest) hosts) (other : item.isHost = false) :
    Fills rest hosts where
  enough := by
    have enough := fills.enough
    rwa [List.filter_cons_of_neg (by simp [other])] at enough
  blocks := fills.blocks

theorem Fills.host {item : Item} {rest hosts : List Item} (fills : Fills (item :: rest) hosts) (here : item.isHost = true) :
    ∃ host others, hosts = host :: others ∧ host.isHost = true ∧ Fills rest others := by
  have enough := fills.enough
  rw [List.filter_cons_of_pos here] at enough
  cases hosts with
  | nil => cases enough
  | cons host others =>
    obtain ⟨first, blocks⟩ := List.forall_mem_cons.mp fills.blocks
    exact ⟨host, others, rfl, first, Nat.succ.inj enough, blocks⟩

theorem filter_placeHosts {items hosts : List Item} (fills : Fills items hosts) :
    (placeHosts items hosts).filter Item.isHost = hosts := by
  induction items generalizing hosts with
  | nil =>
    have none_ := fills.enough
    rw [List.filter_nil, List.length_nil] at none_
    rw [List.eq_nil_of_length_eq_zero none_.symm]
    rfl
  | cons item rest ih =>
    cases here : item.isHost with
    | false => rw [Reorder.placeHosts_other here, List.filter_cons_of_neg (by simp [here]), ih (fills.other here)]
    | true =>
      obtain ⟨host, others, rfl, first, fills⟩ := fills.host here
      rw [Reorder.placeHosts_host here, List.filter_cons_of_pos first, ih fills]

/-- The slots stay where they are. -/
theorem getElem?_placeHosts {items hosts : List Item} (fills : Fills items hosts) (i : Nat) :
    ((placeHosts items hosts)[i]?).map Item.isHost = (items[i]?).map Item.isHost ∧
      ∀ item, items[i]? = some item → item.isHost = false → (placeHosts items hosts)[i]? = some item := by
  induction items generalizing hosts i with
  | nil => exact ⟨rfl, fun item found => by cases found⟩
  | cons first rest ih =>
    cases here : first.isHost with
    | false =>
      rw [Reorder.placeHosts_other here]
      cases i with
      | zero => exact ⟨rfl, fun item found _ => found⟩
      | succ i => exact ih (fills.other here) i
    | true =>
      obtain ⟨host, others, rfl, block, fills⟩ := fills.host here
      rw [Reorder.placeHosts_host here]
      cases i with
      | zero =>
        refine ⟨by simp [here, block], fun item found other => ?_⟩
        obtain rfl : first = item := Option.some.inj found
        rw [here] at other
        cases other
      | succ i => exact ih fills i

theorem length_placeHosts (items hosts : List Item) : (placeHosts items hosts).length = items.length := by
  induction items generalizing hosts with
  | nil => rfl
  | cons item rest ih =>
    cases here : item.isHost with
    | false => rw [Reorder.placeHosts_other here, List.length_cons, ih, List.length_cons]
    | true =>
      cases hosts with
      | nil =>
        have same : placeHosts (item :: rest) [] = item :: placeHosts rest [] := by simp [placeHosts]
        rw [same, List.length_cons, ih, List.length_cons]
      | cons host others => rw [Reorder.placeHosts_host here, List.length_cons, ih, List.length_cons]

theorem placeHosts_placeHosts {items hosts again : List Item} (fills : Fills items hosts) (again_ : Fills items again) :
    placeHosts (placeHosts items hosts) again = placeHosts items again := by
  induction items generalizing hosts again with
  | nil => rfl
  | cons item rest ih =>
    cases here : item.isHost with
    | false =>
      rw [Reorder.placeHosts_other here, Reorder.placeHosts_other here, Reorder.placeHosts_other here,
        ih (fills.other here) (again_.other here)]
    | true =>
      obtain ⟨host, others, rfl, first, fills⟩ := fills.host here
      obtain ⟨host', others', rfl, _, again_⟩ := again_.host here
      rw [Reorder.placeHosts_host here, Reorder.placeHosts_host first, Reorder.placeHosts_host here, ih fills again_]

theorem mem_placeHosts {items hosts : List Item} {item : Item} (member : item ∈ placeHosts items hosts) :
    item ∈ items ∨ item ∈ hosts := by
  induction items generalizing hosts with
  | nil => cases member
  | cons first rest ih =>
    cases here : first.isHost with
    | false =>
      rw [Reorder.placeHosts_other here] at member
      obtain rfl | member := List.mem_cons.mp member
      · exact .inl List.mem_cons_self
      · exact (ih member).imp (List.mem_cons_of_mem _) id
    | true =>
      cases hosts with
      | nil =>
        have same : placeHosts (first :: rest) [] = first :: placeHosts rest [] := by simp [placeHosts]
        rw [same] at member
        obtain rfl | member := List.mem_cons.mp member
        · exact .inl List.mem_cons_self
        · exact (ih member).imp (List.mem_cons_of_mem _) id
      | cons host others =>
        rw [Reorder.placeHosts_host here] at member
        obtain rfl | member := List.mem_cons.mp member
        · exact .inr List.mem_cons_self
        · exact (ih member).imp (List.mem_cons_of_mem _) (List.mem_cons_of_mem _)

section Ordered

variable (items : List Item) (order : List (List Char))

theorem orderHosts_perm : (orderHosts order (items.filter Item.isHost)).Perm (items.filter Item.isHost) := by
  rw [orderHosts_eq]
  exact pickInOrder_perm _ order _

theorem fills_ordered : Fills items (orderHosts order (items.filter Item.isHost)) where
  enough := (orderHosts_perm items order).length_eq.symm
  blocks := fun _ member => (List.mem_filter.mp ((orderHosts_perm items order).mem_iff.mp member)).2

theorem filter_reorderHosts : (reorderHosts items order).filter Item.isHost = orderHosts order (items.filter Item.isHost) :=
  filter_placeHosts (fills_ordered items order)

theorem reorderHosts_idempotent : reorderHosts (reorderHosts items order) order = reorderHosts items order := by
  have again : orderHosts order ((reorderHosts items order).filter Item.isHost) =
      orderHosts order (items.filter Item.isHost) := by
    rw [filter_reorderHosts, orderHosts_eq, orderHosts_eq, pickInOrder_idempotent]
  rw [reorderHosts, again, reorderHosts]
  exact placeHosts_placeHosts (fills_ordered items order) (fills_ordered items order)

theorem mem_reorderHosts {item : Item} (member : item ∈ reorderHosts items order) : item ∈ items := by
  obtain here | here := mem_placeHosts member
  · exact here
  · exact (List.mem_filter.mp ((orderHosts_perm items order).mem_iff.mp here)).1

end Ordered

/-! ## Blocks as a reader sees them -/

/-- An item of a file: a block with its kind, its patterns or criteria and its lines, or a line above the blocks. -/
structure BlockView where
  kind : Option HeaderKind
  patterns : List (List Char)
  lines : List (List Char)
deriving DecidableEq, Repr

def Item.view : Item → BlockView
  | .Host header patterns body => ⟨some .Host, patterns, renderDirective header :: pushItems body⟩
  | .Match header criteria body => ⟨some .Match, [criteria], renderDirective header :: pushItems body⟩
  | item => ⟨none, [], itemLines item⟩

theorem view_lines (item : Item) : item.view.lines = itemLines item := by
  cases item <;> simp [Item.view, itemLines]

/-- The lines of a file. -/
def viewLines (views : List BlockView) : List (List Char) := views.flatMap BlockView.lines

theorem viewLines_map_view (items : List Item) : viewLines (items.map Item.view) = pushItems items := by
  induction items with
  | nil => simp [viewLines, pushItems]
  | cons item rest ih =>
    rw [viewLines, List.map_cons, List.flatMap_cons, view_lines, pushItems]
    exact congrArg (itemLines item ++ ·) ih

section Grouping

variable (u : UnicodeTables)

/-- What a reader makes of these lines. -/
def groupLines (lines : List (List Char)) : List Item := groupBlocks (lines.map (flatItem u))

/-- The lines of a block that is read as it is. -/
def IsBlock (view : BlockView) : Prop :=
  ∃ kind header line body, view.lines = line :: body ∧ flatItem u line = .Directive header ∧
    headerKind (.Directive header) = some (kind, header) ∧ (∀ l ∈ body, headerKind (flatItem u l) = none) ∧
    (makeBlock kind header (body.map (flatItem u))).view = view

/-- A line above the blocks that is read as it is. -/
def IsTopLine (view : BlockView) : Prop := ∃ line, view = ⟨none, [], [line]⟩ ∧ headerKind (flatItem u line) = none

variable {u}

theorem view_flatItem (line : List Char) : (flatItem u line).view = ⟨none, [], [line]⟩ := by
  have lines := itemLines_flatItem u line
  have plain := flatItem_not_block u line
  cases here : flatItem u line with
  | Host | Match =>
    rw [here] at plain
    cases plain
  | _ =>
    rw [here] at lines
    rw [Item.view, lines] <;> exact nofun

/-- The lines of blocks are read as these blocks. -/
theorem view_groupLines_blocks {blocks : List BlockView} (each : ∀ view ∈ blocks, IsBlock u view) :
    (groupLines u (viewLines blocks)).map Item.view = blocks ∧ StartsBlock ((viewLines blocks).map (flatItem u)) := by
  induction blocks with
  | nil => exact ⟨by simp [groupLines, viewLines], fun item first => by cases first⟩
  | cons view rest ih =>
    obtain ⟨⟨kind, header, line, body, lines, read, isHeader, plain, same⟩, each⟩ := List.forall_mem_cons.mp each
    obtain ⟨others, starts⟩ := ih each
    have split : (viewLines (view :: rest)).map (flatItem u) =
        .Directive header :: body.map (flatItem u) ++ (viewLines rest).map (flatItem u) := by
      rw [viewLines, List.flatMap_cons, lines, List.map_append, List.map_cons, read]
      rfl
    have plain : ∀ item ∈ body.map (flatItem u), headerKind item = none := by
      intro item member
      obtain ⟨l, inBody, rfl⟩ := List.mem_map.mp member
      exact plain l inBody
    refine ⟨?_, ?_⟩
    · rw [groupLines, split, groupBlocks_append starts, groupBlocks_block isHeader plain, List.map_append, List.map_singleton,
        same]
      exact congrArg (view :: ·) others
    · rw [split]
      intro item first
      obtain rfl := Option.some.inj first
      rw [isHeader]
      rfl

theorem view_groupLines {top blocks : List BlockView} (lines : ∀ view ∈ top, IsTopLine u view)
    (each : ∀ view ∈ blocks, IsBlock u view) :
    (groupLines u (viewLines (top ++ blocks))).map Item.view = top ++ blocks := by
  induction top with
  | nil => exact (view_groupLines_blocks each).1
  | cons view rest ih =>
    obtain ⟨⟨line, rfl, plain⟩, later⟩ := List.forall_mem_cons.mp lines
    rw [groupLines, viewLines, List.cons_append, List.flatMap_cons, List.singleton_append, List.map_cons,
      groupBlocks_plain plain, List.map_cons, view_flatItem]
    exact congrArg (_ :: ·) (ih later)

theorem view_of_line {item : Item} (plain : item.isBlock = false) :
    ∃ line, itemLines item = [line] ∧ item.view = ⟨none, [], [line]⟩ := by
  cases item with
  | Blank line => exact ⟨line, by simp [itemLines], by simp [Item.view, itemLines]⟩
  | Comment line => exact ⟨line, by simp [itemLines], by simp [Item.view, itemLines]⟩
  | Directive d => exact ⟨renderDirective d, by simp [itemLines], by simp [Item.view, itemLines]⟩
  | Host | Match => cases plain

theorem view_of_block {item : Item} (block : item.isBlock = true) :
    ∃ line body kind, itemLines item = line :: body ∧ item.view.kind = some kind := by
  cases item with
  | Host header patterns body => exact ⟨renderDirective header, pushItems body, .Host, by simp [itemLines], rfl⟩
  | Match header criteria body => exact ⟨renderDirective header, pushItems body, .Match, by simp [itemLines], rfl⟩
  | _ => cases block

theorem kind_makeBlock (kind : HeaderKind) (header : Directive) (body : List Item) :
    (makeBlock kind header body).view.kind = some kind := by
  cases kind <;> rfl

/-- A block is read up to its last line when the reader takes these lines for its body. -/
theorem isBlock_of_grouped {item : Item} {line : List Char} {body rest : List (List Char)} {kind : HeaderKind}
    {header : Directive} (lines : itemLines item = line :: body) (read : flatItem u line = .Directive header)
    (isHeader : headerKind (.Directive header) = some (kind, header))
    (same : (makeBlock kind header (((body ++ rest).map (flatItem u)).takeWhile fun next => (headerKind next).isNone)).view =
      item.view) :
    IsBlock u item.view ∧
      ((body ++ rest).map (flatItem u)).dropWhile (fun next => (headerKind next).isNone) = rest.map (flatItem u) := by
  have split := (List.takeWhile_append_dropWhile (p := fun next => (headerKind next).isNone)
    (l := (body ++ rest).map (flatItem u))).symm
  have plain : ∀ next ∈ ((body ++ rest).map (flatItem u)).takeWhile (fun next => (headerKind next).isNone),
      headerKind next = none := fun next member => by simpa using List.mem_takeWhile_imp member
  obtain ⟨taken, left, whole, takenMap, leftMap⟩ := List.map_eq_append_iff.mp split
  rw [← takenMap] at same plain
  -- the lines of the block are its own, so the reader took exactly those
  have sameLines := congrArg BlockView.lines same
  rw [view_lines, view_lines, itemLines_makeBlock, lines, pushItems_flatItem] at sameLines
  obtain ⟨_, rfl⟩ := List.cons.inj sameLines
  obtain rfl := List.append_cancel_left whole
  refine ⟨⟨kind, header, line, taken, by rw [view_lines, lines], read, isHeader, ?_, same⟩, leftMap.symm⟩
  intro l member
  exact plain _ (List.mem_map_of_mem member)

/-- Items that are read as they are: lines above the blocks, then blocks. -/
theorem grouped_of_view {items : List Item} (same : (groupLines u (pushItems items)).map Item.view = items.map Item.view) :
    ∃ top blocks, items = top ++ blocks ∧ (∀ item ∈ top, IsTopLine u item.view) ∧ ∀ item ∈ blocks, IsBlock u item.view := by
  induction items with
  | nil => exact ⟨[], [], rfl, by simp, by simp⟩
  | cons item rest ih =>
    rw [groupLines, pushItems] at same
    cases block : item.isBlock with
    | false =>
      obtain ⟨line, lines, view⟩ := view_of_line block
      rw [lines, List.singleton_append, List.map_cons] at same
      cases head : headerKind (flatItem u line) with
      | none =>
        rw [groupBlocks_plain head, List.map_cons, List.map_cons] at same
        obtain ⟨top, blocks, rfl, above, below⟩ := ih (List.cons.inj same).2
        exact ⟨item :: top, blocks, rfl, List.forall_mem_cons.mpr ⟨⟨line, view, head⟩, above⟩, below⟩
      | some found =>
        obtain ⟨kind, header⟩ := found
        rw [groupBlocks_header head, List.map_cons, List.map_cons] at same
        have kinds := congrArg BlockView.kind (List.cons.inj same).1
        rw [kind_makeBlock, view] at kinds
        cases kinds
    | true =>
      obtain ⟨line, body, kind, lines, isKind⟩ := view_of_block block
      rw [lines, List.cons_append, List.map_cons] at same
      cases head : headerKind (flatItem u line) with
      | none =>
        rw [groupBlocks_plain head, List.map_cons, List.map_cons, view_flatItem] at same
        have kinds := congrArg BlockView.kind (List.cons.inj same).1
        rw [isKind] at kinds
        cases kinds
      | some found =>
        obtain ⟨kind, header⟩ := found
        have read := headerKind_eq_some head
        rw [groupBlocks_header head, List.map_cons, List.map_cons] at same
        obtain ⟨first, others⟩ := List.cons.inj same
        obtain ⟨here, left⟩ := isBlock_of_grouped lines read (read ▸ head) first
        rw [left] at others
        obtain ⟨top, blocks, rfl, above, below⟩ := ih others
        cases top with
        | nil => exact ⟨[], item :: blocks, rfl, by simp, List.forall_mem_cons.mpr ⟨here, below⟩⟩
        | cons topItem top =>
          -- a line after the block would have been taken into it
          obtain ⟨topLine, topView, plain⟩ := above topItem List.mem_cons_self
          have topLines := view_lines topItem
          rw [topView] at topLines
          have stopped := List.head?_dropWhile_not (fun next => (headerKind next).isNone)
            ((body ++ pushItems (topItem :: (top ++ blocks))).map (flatItem u))
          rw [List.cons_append] at left
          rw [left, pushItems, ← topLines, List.singleton_append, List.map_cons, List.head?_cons] at stopped
          simp [plain] at stopped

/-! ## Reading the file back -/

/-- What a reader sees of written blocks: without a final newline an empty last line ends the line before it. -/
def readViews (trailingNewline : Bool) (views : List BlockView) : List BlockView :=
  match views.getLast? with
  | none => []
  | some last =>
    if trailingNewline = false ∧ last.lines.getLast? = some [] then
      views.dropLast ++ [{ last with lines := last.lines.dropLast }]
    else views

/-- A block without its last line, which is empty. -/
theorem IsBlock.dropLast {view : BlockView} (block : IsBlock u view) (empty : view.lines.getLast? = some []) :
    IsBlock u { view with lines := view.lines.dropLast } := by
  obtain ⟨kind, header, line, body, lines, read, isHeader, plain, same⟩ := block
  have some_ : line ≠ [] := by
    rintro rfl
    cases read
  have body_ : body ≠ [] := by
    rintro rfl
    rw [lines] at empty
    exact some_ (Option.some.inj empty)
  refine ⟨kind, header, line, body.dropLast, ?_, read, isHeader, fun l member => plain l (List.mem_of_mem_dropLast member), ?_⟩
  · rw [lines, List.dropLast_cons_of_ne_nil body_]
  · have header_ : renderDirective header = line := by
      have whole := congrArg BlockView.lines same
      rw [view_lines, itemLines_makeBlock, lines] at whole
      exact (List.cons.inj whole).1
    have left : pushItems (body.map (flatItem u)).dropLast = body.dropLast := by
      rw [← List.map_dropLast, pushItems_flatItem]
    rw [← same]
    cases kind with
    | Host => simp [makeBlock, Item.view, pushItems_flatItem, left, List.dropLast_cons_of_ne_nil body_]
    | Match => simp [makeBlock, Item.view, pushItems_flatItem, left, List.dropLast_cons_of_ne_nil body_]

theorem readViews_concat (trailingNewline : Bool) (views : List BlockView) (last : BlockView) :
    readViews trailingNewline (views ++ [last]) =
      views ++
        [if trailingNewline = false ∧ last.lines.getLast? = some [] then { last with lines := last.lines.dropLast } else last] := by
  rw [readViews, List.getLast?_concat]
  dsimp only
  split
  · rw [List.dropLast_concat]
  · rfl

/-- The reader sees the lines of the blocks it sees. -/
theorem linesRead_viewLines (trailingNewline : Bool) (views : List BlockView) (last : BlockView) (some_ : last.lines ≠ []) :
    linesRead (viewLines (views ++ [last])) trailingNewline = viewLines (readViews trailingNewline (views ++ [last])) := by
  have lines (view : BlockView) : viewLines (views ++ [view]) = viewLines views ++ view.lines := by
    rw [viewLines, List.flatMap_append, List.flatMap_singleton]
    rfl
  rw [readViews_concat, lines, lines, linesRead, List.getLast?_append_of_ne_nil _ some_]
  split
  · rw [List.dropLast_append_of_ne_nil some_]
  · rfl

theorem readViews_eq_self {trailingNewline : Bool} {views : List BlockView} {last : BlockView}
    (whole : linesRead (viewLines (views ++ [last])) trailingNewline = viewLines (views ++ [last])) (some_ : last.lines ≠ []) :
    readViews trailingNewline (views ++ [last]) = views ++ [last] := by
  rw [readViews_concat, if_neg]
  rintro ⟨open_, empty⟩
  rw [linesRead_viewLines _ _ _ some_, readViews_concat, if_pos ⟨open_, empty⟩, viewLines, viewLines, List.flatMap_append,
    List.flatMap_append, List.flatMap_singleton, List.flatMap_singleton] at whole
  have lengths := congrArg List.length (List.append_cancel_left whole)
  have := List.length_pos_iff.mpr some_
  rw [List.length_dropLast] at lengths
  omega

theorem IsTopLine.some_ {view : BlockView} (top : IsTopLine u view) : view.lines ≠ [] := by
  obtain ⟨line, rfl, _⟩ := top
  exact List.cons_ne_nil _ _

theorem IsBlock.some_ {view : BlockView} (block : IsBlock u view) : view.lines ≠ [] := by
  obtain ⟨_, _, line, body, lines, _⟩ := block
  rw [lines]
  exact List.cons_ne_nil _ _

/-- Written blocks are read back. -/
theorem view_parseFile {top blocks : List BlockView} (lines : ∀ view ∈ top, IsTopLine u view)
    (each : ∀ view ∈ blocks, IsBlock u view) (some_ : top ++ blocks ≠ [])
    (single : ∀ line ∈ viewLines (top ++ blocks), '\n' ∉ line) {trailingNewline : Bool}
    (closed : blocks = [] → readViews trailingNewline top = top) :
    (parseFile u (['\n'].intercalate (viewLines (top ++ blocks)) ++ if trailingNewline then ['\n'] else [])).1.map Item.view =
      readViews trailingNewline (top ++ blocks) := by
  obtain rfl | ⟨views, last, rfl⟩ := List.eq_nil_or_concat blocks
  · obtain ⟨views, last, rfl⟩ := (List.eq_nil_or_concat top).resolve_left (by simpa using some_)
    have here := (lines last (by simp)).some_
    have closed := closed rfl
    rw [List.concat_eq_append] at *
    rw [List.append_nil] at *
    have nonempty : viewLines (views ++ [last]) ≠ [] := by simp [viewLines, here]
    rw [parseFile_written u trailingNewline nonempty single, linesRead_viewLines _ _ _ here, closed]
    have read := @view_groupLines u (views ++ [last]) [] lines (by simp)
    rwa [List.append_nil] at read
  · rw [List.concat_eq_append] at *
    have here := each last (by simp)
    have whole : top ++ (views ++ [last]) = top ++ views ++ [last] := (List.append_assoc ..).symm
    have nonempty : viewLines (top ++ views ++ [last]) ≠ [] := by simp [viewLines, here.some_]
    rw [whole] at single ⊢
    rw [parseFile_written u trailingNewline nonempty single, linesRead_viewLines _ _ _ here.some_, readViews_concat,
      List.append_assoc]
    apply view_groupLines lines
    intro view member
    obtain member | member := List.mem_append.mp member
    · exact each view (List.mem_append_left _ member)
    · rw [List.mem_singleton.mp member]
      split
      next open_ => exact here.dropLast open_.2
      next => exact here

/-- Items whose text is read as they are. -/
def ReadsBack (u : UnicodeTables) (items : List Item) (trailingNewline : Bool) : Prop :=
  (parseFile u (serializeItems items trailingNewline)).1.map Item.view = items.map Item.view

/-- What is known of items whose text is read as they are. -/
theorem ReadsBack.grouped {items : List Item} {trailingNewline : Bool} (reads : ReadsBack u items trailingNewline) :
    (∃ top blocks, items = top ++ blocks ∧ (∀ item ∈ top, IsTopLine u item.view) ∧ ∀ item ∈ blocks, IsBlock u item.view) ∧
      (∀ line ∈ pushItems items, '\n' ∉ line) ∧ readViews trailingNewline (items.map Item.view) = items.map Item.view := by
  obtain ⟨lines, single, grouped, _⟩ := parseFile_lines_read u (serializeItems items trailingNewline)
  have same : lines = pushItems items := by
    have whole := congrArg viewLines reads
    rwa [viewLines_map_view, viewLines_map_view, grouped, pushItems_groupBlocks, pushItems_flatItem] at whole
  subst same
  have split := grouped_of_view (by rw [← reads, grouped]; rfl)
  refine ⟨split, single, ?_⟩
  obtain none_ | ⟨views, last, whole⟩ := List.eq_nil_or_concat (items.map Item.view)
  · rw [none_]
    rfl
  · rw [List.concat_eq_append] at whole
    have some_ : last.lines ≠ [] := by
      have member : last ∈ items.map Item.view := by simp [whole]
      obtain ⟨item, inItems, rfl⟩ := List.mem_map.mp member
      obtain ⟨top, blocks, rfl, above, below⟩ := split
      exact (List.mem_append.mp inItems).elim (fun here => (above item here).some_) fun here => (below item here).some_
    have lines : pushItems items = viewLines (views ++ [last]) := by rw [← whole, viewLines_map_view]
    have nonempty : pushItems items ≠ [] := by rw [lines]; simp [viewLines, some_]
    -- the reader's lines are the written ones, so no line was taken for the final newline
    have read := congrArg pushItems (parseFile_written u trailingNewline nonempty single)
    rw [pushItems_groupBlocks, pushItems_flatItem] at read
    have written : linesRead (pushItems items) trailingNewline = pushItems items := by
      rw [← read, show ['\n'].intercalate (pushItems items) ++ _ = serializeItems items trailingNewline from rfl, grouped,
        pushItems_groupBlocks, pushItems_flatItem]
    rw [lines] at written
    rw [whole, readViews_eq_self written some_]

theorem isHost_eq_of_top {item : Item} (top : IsTopLine u item.view) : item.isHost = false := by
  obtain ⟨line, view, _⟩ := top
  cases item with
  | Host => cases view
  | _ => rfl

/-- What is written after reordering is read as the reordered blocks. -/
theorem readsBack_reorderHosts {items : List Item} {trailingNewline : Bool} (reads : ReadsBack u items trailingNewline)
    (order : List (List Char)) :
    (parseFile u (serializeItems (reorderHosts items order) trailingNewline)).1.map Item.view =
      readViews trailingNewline ((reorderHosts items order).map Item.view) := by
  obtain ⟨⟨top, blocks, rfl, above, below⟩, single, closed⟩ := reads.grouped
  have others : top.filter Item.isHost = [] :=
    List.filter_eq_nil_iff.mpr fun item member => by simp [isHost_eq_of_top (above item member)]
  have reordered : reorderHosts (top ++ blocks) order = top ++ reorderHosts blocks order := by
    rw [reorderHosts, placeHosts_append others, List.filter_append, others, List.nil_append, reorderHosts]
  by_cases none_ : top ++ blocks = []
  · obtain ⟨rfl, rfl⟩ := List.append_eq_nil_iff.mp none_
    exact reads.trans closed.symm
  · have known : ∀ view ∈ (reorderHosts blocks order).map Item.view, IsBlock u view := by
      intro view member
      obtain ⟨item, inBlocks, rfl⟩ := List.mem_map.mp member
      exact below item (mem_reorderHosts blocks order inBlocks)
    have above : ∀ view ∈ top.map Item.view, IsTopLine u view := by
      intro view member
      obtain ⟨item, inTop, rfl⟩ := List.mem_map.mp member
      exact above item inTop
    have lines : ∀ line ∈ viewLines (top.map Item.view ++ (reorderHosts blocks order).map Item.view), '\n' ∉ line := by
      intro line member
      obtain ⟨view, inViews, inLines⟩ := List.mem_flatMap.mp member
      rw [← List.map_append] at inViews
      obtain ⟨item, inItems, rfl⟩ := List.mem_map.mp inViews
      have old : item ∈ top ++ blocks := mem_reorderHosts (top ++ blocks) order (by rw [reordered]; exact inItems)
      apply single
      rw [← viewLines_map_view]
      exact List.mem_flatMap.mpr ⟨_, List.mem_map_of_mem old, inLines⟩
    -- reordering loses no block
    have kept : (reorderHosts blocks order).map Item.view = [] → blocks = [] := by
      intro empty
      have count := length_placeHosts blocks (orderHosts order (blocks.filter Item.isHost))
      rw [← reorderHosts, List.map_eq_nil_iff.mp empty] at count
      exact List.eq_nil_of_length_eq_zero count.symm
    have some_ : top.map Item.view ++ (reorderHosts blocks order).map Item.view ≠ [] := by
      intro empty
      obtain ⟨emptyTop, emptyBlocks⟩ := List.append_eq_nil_iff.mp empty
      exact none_ (by rw [List.map_eq_nil_iff.mp emptyTop, kept emptyBlocks]; rfl)
    have parsed := @view_parseFile u _ _ above known some_ lines trailingNewline fun empty => by
      rwa [kept empty, List.append_nil] at closed
    rw [reordered, List.map_append, ← parsed, serializeItems, ← viewLines_map_view, List.map_append]

end Grouping

/-- Reordering gives every Host slot a block: the named blocks first, each by the first alias that is left for it, then the
others in their order.  Everything else stays, doing it again changes nothing, and a file that is read back as its items
is read back as the reordered items. -/
theorem reorder_moves_blocks (u : UnicodeTables) (items : List Item) (order : List (List Char)) :
    ∃ result, Reorder.reorderHosts items order = some result ∧
      (∀ i : Nat, (result[i]?).map Item.isHost = (items[i]?).map Item.isHost ∧
        ∀ item : Item, items[i]? = some item → item.isHost = false → result[i]? = some item) ∧
      (result.filter Item.isHost).Perm (items.filter Item.isHost) ∧
      result.filter Item.isHost = pickInOrder (fun alias_ host => host.hasAlias alias_) order (items.filter Item.isHost) ∧
      Reorder.reorderHosts result order = some result ∧
      ∀ trailingNewline, ReadsBack u items trailingNewline →
        (parseFile u (serializeItems result trailingNewline)).1.map Item.view =
          readViews trailingNewline (result.map Item.view) := by
  refine ⟨reorderHosts items order, Reorder.reorderHosts_eq items order, getElem?_placeHosts (fills_ordered items order), ?perm,
    ?picked, ?again, fun trailingNewline reads => readsBack_reorderHosts reads order⟩
  case perm =>
    rw [filter_reorderHosts]
    exact orderHosts_perm items order
  case picked => rw [filter_reorderHosts, orderHosts_eq]
  case again => rw [Reorder.reorderHosts_eq, reorderHosts_idempotent]

namespace Sample

/-- A file without a final newline, whose first block ends in an empty line. -/
def openEnd : List Char := "Host a\n  Port 1\n\nHost b".toList

/-- A block with a line after it that is not in it. -/
def strayLine : List Item := [.Host (.new Sync.HostsFile.Sample.asciiTables "Host".toList "a".toList []) ["a".toList] [],
  .Comment "# end".toList]

end Sample

open Sample Sync.HostsFile.Sample in
/-- Without a final newline the empty line of a block that becomes the last one is gone, and a line after a block is read
as a part of it. -/
theorem reordered_blocks_lose_lines :
    ReadsBack asciiTables (parseFile asciiTables openEnd).1 false ∧
    (∃ result, Reorder.reorderHosts (parseFile asciiTables openEnd).1 ["b".toList] = some result ∧
      (parseFile asciiTables (serializeItems result false)).1.map Item.view ≠ result.map Item.view) ∧
    ∃ result, Reorder.reorderHosts strayLine [] = some result ∧
      (parseFile asciiTables (serializeItems result true)).1.map Item.view ≠ result.map Item.view := by
  refine ⟨by unfold ReadsBack; decide +kernel, ⟨_, Reorder.reorderHosts_eq _ _, by decide +kernel⟩,
    ⟨_, Reorder.reorderHosts_eq _ _, by decide +kernel⟩⟩

end Sshelter.Config
