import Ve482.Lib.LossyStore
import Ve482.Vm.Isolation

set_option autoImplicit false

namespace Ve482.Vm

open Function (update)
open Fallible (Ends)
open LossyStore (Access Serves Within Honest)

variable {np : Nat} {Page : Type} {header : Header np} {answers : Answers} {vm vm' : State np}
  {memory : Set Nat} {order : List Ptr}

/-- Yielded blocks have at most been freed. -/
structure Fewer (vm vm' : State np) : Prop where
  nodes : ∀ node h, node ∈ vm'.vmYieldedBlocks h → ∃ h', node ∈ vm.vmYieldedBlocks h'
  same : ∀ node, SameBlock (vm.yielded node) (vm'.yielded node)

theorem Fewer.refl (vm : State np) : Fewer vm vm :=
  ⟨fun _ h inTree => ⟨h, inTree⟩, fun _ => ⟨rfl, rfl, rfl⟩⟩

theorem KeepsBooks.fewer (keeps : KeepsBooks vm vm') : Fewer vm vm' := by
  refine ⟨fun node h inTree => ⟨h, keeps.vmYieldedBlocks ▸ inTree⟩, fun node => ?_⟩
  rw [keeps.yielded]
  exact ⟨rfl, rfl, rfl⟩

theorem FreedNode.fewer {start : State np} {node : Ptr} {freemem : Bool}
    (freed : FreedNode vm vm' node freemem) (fewer : Fewer start vm) : Fewer start vm' := by
  refine ⟨fun other h inTree => ?_, fun other => ?_⟩
  · obtain ⟨⟨h', before⟩, -⟩ := (freed.trees other).mp ⟨h, inTree⟩
    exact fewer.nodes other h' before
  · obtain ⟨id, physaddr, pages⟩ := fewer.same other
    obtain ⟨id', physaddr', pages'⟩ := freed.same other
    exact ⟨id'.trans id, physaddr'.trans physaddr, pages'.trans pages⟩

theorem freeing_fewer (header : Header np) (start vm : State np) (order : List Ptr) (node : Ptr)
    (books : Books header vm order) (member : node ∈ order) (kept : Paged vm ∧ Fewer start vm)
    (vm' : State np) (result : freeyieldednode header vm node true = .ok (vmPageSize, vm')) :
    Paged vm' ∧ Fewer start vm' :=
  ⟨freeing_paged header vm order node books member kept.1 vm' result,
    (freeyieldednode_freed books member result).fewer kept.2⟩

theorem happen_fewer (orderly : Orderly header vm) {event : Life np}
    (permitted : event.Permitted header vm)
    (unasked : ∀ answers message, event ≠ .request (.yieldblockGetblock answers message)) :
    Ends (fun _ => True) (Fewer vm) (happen header vm event) := by
  have started : Fewer vm (Vm.restart vm) := ⟨fun _ h inTree => ⟨h, inTree⟩, fun _ => ⟨rfl, rfl, rfl⟩⟩
  have later {vm' : State np} (keeps : KeepsBooks (Vm.restart vm) vm') : Fewer vm vm' :=
    ⟨keeps.fewer.nodes, keeps.fewer.same⟩
  cases event with
  | begin p endpoint => exact ⟨fun _ h inTree => ⟨h, inTree⟩, fun _ => ⟨rfl, rfl, rfl⟩⟩
  | map answers p startv length flags memtype =>
      refine Ends.map ((mapRegion_joined answers (Vm.restart vm) p startv length flags memtype).imp
        fun result after => ?_)
      obtain ⟨-, ⟨calls, same⟩ | ⟨joined, -⟩⟩ := after
      · rw [same]
        exact ⟨started.nodes, started.same⟩
      · exact later joined.toKeepsBooks
  | fault answers p vaddr =>
      unfold happen pagefault
      dsimp only
      cases found : regionAt (Vm.restart vm) p vaddr with
      | none => exact started
      | some r =>
          have blocks : Blocks (Vm.restart vm) := orderly.wellformed.blocks.idle _ _
          dsimp only
          split
          · have keeps : Keeps (Vm.restart vm) (mapPf header answers (Vm.restart vm) r
                (vaddr - ((Vm.restart vm).virRegion r).vaddr)) := mapPf_keeps _ r _
            exact Ends.map (keeps.imp fun result kept => later kept)
          · rename_i ph resident
            exact Ends.map ((mapPfResident_rewritten header answers blocks (blocks.slotIn found)
              resident).imp fun result rewritten => later rewritten.keeps)
  | fork answers dst src =>
      exact Ends.map ((mapProcCopy_shares header answers src
        (show ((Vm.restart vm).vmproc dst).vmYielded = 0 from permitted.2.2.1)).imp
          fun result shares => later shares.toKeepsBooks)
  | request event =>
      refine step_rule orderly.wellformed (.refl vm) (freeing_fewer header vm)
        (fun answers message same => unasked answers message (congrArg _ same)) fun p _ => ?_
      refine (mapFreeProc_rule orderly.wellformed ((mapFreeRegions_keeps p _ vm).imp
        fun vm' keeps => keeps.fewer) (fun vm1 proc kept => ?_) (freeing_fewer header vm)).imp
          fun vm1 kept => ?_
      · exact ⟨kept.nodes, kept.same⟩
      · exact ⟨kept.nodes, kept.same⟩

/-- The blocks that a request is to forget. -/
def Event.forgets (header : Header np) (vm : State np) : Event np → BlockId → Bool
  | .forgetblock source id, key =>
      (vmIsokendpt header vm source).any fun p => key = ⟨(vm.vmproc p).vmEndpoint, id⟩
  | .forgetblocks source, key =>
      (vmIsokendpt header vm source).any fun p => key.owner = (vm.vmproc p).vmEndpoint
  | .exit p, key => (vm.vmproc p).inUse && key.owner = (vm.vmproc p).vmEndpoint
  | _, _ => false

/-- A request that is to forget blocks leaves none of them. -/
theorem step_forgets (orderly : Orderly header vm) (event : Event np) :
    Ends (fun _ => True) (fun vm' => ∀ node h, node ∈ vm'.vmYieldedBlocks h →
      event.forgets header vm (vm'.yielded node).id = false) (step header vm event) := by
  obtain ⟨order, books⟩ := orderly.wellformed.books
  have others {vm' : State np} {p : Fin np} (swept : Swept header vm vm' (order.filter fun node =>
      (vm.yielded node).id.owner ≠ (vm.vmproc p).vmEndpoint)) {node : Ptr} {h : Nat}
      (inTree : node ∈ vm'.vmYieldedBlocks h) :
      (vm'.yielded node).id.owner ≠ (vm.vmproc p).vmEndpoint := by
    have member := ((swept.books.trees h node).mp inTree).1
    rw [swept.ids]
    exact of_decide_eq_true (List.mem_filter.mp member).2
  have quiet (event : Event np) (none : ∀ key, event.forgets header vm key = false) :
      Ends (fun _ => True) (fun vm' => ∀ node h, node ∈ vm'.vmYieldedBlocks h →
        event.forgets header vm (vm'.yielded node).id = false) (step header vm event) := by
    cases step header vm event with
    | error stop => trivial
    | ok vm' => exact fun node _ _ => none _
  cases event with
  | yieldblockGetblock answers message => exact quiet _ fun _ => rfl
  | freeYielded maxBytes => exact quiet _ fun _ => rfl
  | forgetblock source id =>
      unfold step doForgetblock Event.forgets
      dsimp only
      cases caller : vmIsokendpt header vm source with
      | none => trivial
      | some p =>
          dsimp only
          cases search : yieldedSearch vm (vm.vmYieldedBlocks
              (getYieldedAvl header { owner := (vm.vmproc p).vmEndpoint, id }))
              { owner := (vm.vmproc p).vmEndpoint, id } with
          | none =>
              intro node h inTree
              exact decide_eq_false (books.search_none search node ((books.trees h node).mp inTree).1)
          | some yb =>
              obtain ⟨member, isId⟩ := books.search_some search
              obtain ⟨vm', result, -⟩ := freeyieldednode_ok books member true
              have freed := freeyieldednode_freed books member result
              dsimp only
              rw [result]
              refine fun node h inTree => decide_eq_false fun same => ?_
              obtain ⟨⟨h', before⟩, different⟩ := (freed.trees node).mp ⟨h, inTree⟩
              have found := books.search ((books.trees h' node).mp before).1
              rw [← (freed.same node).1, same, search] at found
              exact different (Option.some.inj found).symm
  | forgetblocks source =>
      unfold step doForgetblocks Event.forgets
      dsimp only
      cases caller : vmIsokendpt header vm source with
      | none => trivial
      | some p =>
          obtain ⟨vm', result, left⟩ := freeYieldedProc_ok (vmIsokendpt_live caller).2 books
          dsimp only
          rw [result]
          exact fun node h inTree => decide_eq_false (others left inTree)
  | exit p =>
      by_cases live : (vm.vmproc p).inUse
      · unfold step Event.forgets
        dsimp only
        rw [if_pos live]
        refine (mapFreeProc_ends books live).bind fun vm' left node h inTree => ?_
        rw [live, Bool.true_and]
        exact decide_eq_false (others left inTree)
      · exact quiet _ fun key => by rw [Event.forgets, Bool.eq_false_of_not_eq_true live]; rfl

namespace Machine

variable {filling : Filling Page} {m m' m1 m2 : Machine np Page}

/-! The yielded blocks as a store of what processes read. -/

/-- What the block of an id holds. -/
def stored (header : Header np) (m : Machine np Page) (id : BlockId) :
    Option (List (Option Page)) :=
  (yieldedSearch m.vm (m.vm.vmYieldedBlocks (getYieldedAvl header id)) id).map m.blockPages

/-- What a message puts, and what it takes. -/
def exchange (header : Header np) (answers : Answers) (filling : Filling Page) (m : Machine np Page)
    (p : Fin np) (message : Message) (count : Nat) : List (Access BlockId (List (Option Page))) :=
  let yielded :=
    if message.yieldid = header.vmBlockidNone then .ok (.esrch, m)
    else m.yieldblock header answers filling p message.yieldid message.vaddr count
  match yielded with
  | .error _ => []
  | .ok (code, m1) =>
      let put := if code = .ok then
          [.put ⟨(m.vm.vmproc p).vmEndpoint, message.yieldid⟩ (m.read p message.vaddr count)]
        else []
      let got :=
        if message.getid = header.vmBlockidNone then .ok (.esrch, m1)
        else m1.getblock header answers filling p message.getid message.vaddr count
      match got with
      | .error _ => put
      | .ok (code, m2) =>
          put ++ if code = .ok then
            [.take ⟨(m1.vm.vmproc p).vmEndpoint, message.getid⟩ (m2.read p message.vaddr count)]
          else []

/-- What an act puts into the store, takes from it, or forbids it to keep. -/
def accesses (header : Header np) (filling : Filling Page) (m : Machine np Page) :
    Act np Page → List (Access BlockId (List (Option Page)))
  | .call (.request (.yieldblockGetblock answers message)) =>
      match vmIsokendpt header m.vm message.source with
      | none => []
      | some p =>
          let pages := Int.tdiv message.len.toInt vmPageSize
          if Int.tmod message.len.toInt vmPageSize ≠ 0 ∨ pages < 1 then []
          else m.restart.exchange header answers filling p message pages.toNat
  | .call (.request event) => [.discard (event.forgets header m.vm)]
  | _ => []

/-- The accesses of a run. -/
def log (header : Header np) (filling : Filling Page) :
    Machine np Page → List (Act np Page) → List (Access BlockId (List (Option Page)))
  | _, [] => []
  | m, act :: acts =>
      match m.perform header filling act with
      | .error _ => []
      | .ok m' => m.accesses header filling act ++ log header filling m' acts

theorem stored_some {id : BlockId} {pages : List (Option Page)}
    (held : m.stored header id = some pages) : ∃ node h, node ∈ m.vm.vmYieldedBlocks h ∧
      (m.vm.yielded node).id = id ∧ m.blockPages node = pages := by
  obtain ⟨node, found, same⟩ := Option.map_eq_some_iff.mp held
  have isId := List.find?_some found
  simp only [decide_eq_true_eq] at isId
  exact ⟨node, _, List.mem_of_find?_eq_some found, isId, same⟩

theorem stored_node (books : Books header m.vm order) {node : Ptr} {h : Nat}
    (inTree : node ∈ m.vm.vmYieldedBlocks h) :
    m.stored header (m.vm.yielded node).id = some (m.blockPages node) := by
  unfold stored
  rw [books.search ((books.trees h node).mp inTree).1, Option.map_some]

/-- All blocks that are there now were there before, and hold what they held. -/
structure Thinned (m m' : Machine np Page) : Prop where
  nodes : ∀ node h, node ∈ m'.vm.vmYieldedBlocks h → ∃ h', node ∈ m.vm.vmYieldedBlocks h'
  ids : ∀ node, (m'.vm.yielded node).id = (m.vm.yielded node).id
  pages : ∀ node h, node ∈ m'.vm.vmYieldedBlocks h → m'.blockPages node = m.blockPages node

theorem Thinned.within (thinned : m.Thinned m') (books : Books header m.vm order) :
    Within (m'.stored header) (m.stored header) := by
  intro id pages held
  obtain ⟨node, h, inTree, rfl, rfl⟩ := stored_some held
  obtain ⟨h', before⟩ := thinned.nodes node h inTree
  rw [thinned.ids, thinned.pages node h inTree]
  exact stored_node books before

theorem Still.thinned (still : m.Still m') : m.Thinned m' := by
  refine ⟨fun node h inTree => ⟨h, still.trees ▸ inTree⟩, fun node => by rw [still.yielded],
    fun node h _ => ?_⟩
  unfold blockPages
  rw [still.yielded, still.memory]

theorem Put.serves {p : Fin np} {count : Nat} {v : VirBytes} {clear : Page} {block : Yielded}
    {new : Ptr} (put : m.Put m' p count v clear block new) (books : Books header m.vm order)
    (search : yieldedSearch m.vm (m.vm.vmYieldedBlocks (getYieldedAvl header block.id)) block.id =
      none) :
    Serves (m.stored header) [.put block.id (m.read p v count)] (m'.stored header) := by
  intro id pages held
  obtain ⟨node, h, inTree, rfl, rfl⟩ := stored_some held
  rcases (put.trees node).mp ⟨h, inTree⟩ with ⟨h', before⟩ | rfl
  · have isOld : node ≠ new := fun same => put.unused h' (same ▸ before)
    have member := ((books.trees h' node).mp before).1
    rw [(put.same node isOld).1, put.yielded node h' before,
      Function.update_of_ne (books.search_none search node member)]
    exact stored_node books before
  · rw [put.new.1.1, put.new.2, Function.update_self]

theorem Take.serves {p : Fin np} {count : Nat} {v : VirBytes} {node : Ptr} {id : BlockId}
    (take : m.Take m' p count v node) (books : Books header m.vm order)
    (search : yieldedSearch m.vm (m.vm.vmYieldedBlocks (getYieldedAvl header id)) id = some node) :
    Serves (m.stored header) [.take id (m'.read p v count)] (m'.stored header) := by
  obtain ⟨member, rfl⟩ := books.search_some search
  have inTree := (books.trees _ node).mpr ⟨member, rfl⟩
  refine ⟨(stored_node books inTree).trans (congrArg some take.pages.symm), ?_⟩
  intro id pages held
  obtain ⟨other, h, inTree', rfl, rfl⟩ := stored_some held
  obtain ⟨⟨h', before⟩, different⟩ := (take.trees other).mp ⟨h, inTree'⟩
  have others : (m.vm.yielded other).id ≠ (m.vm.yielded node).id := by
    intro same
    have found := books.search ((books.trees h' other).mp before).1
    rw [same, books.search member] at found
    exact different (Option.some.inj found).symm
  rw [(take.same other).1, take.yielded other h' before different, Function.update_of_ne others]
  exact stored_node books before

theorem Exchanged.serves {p : Fin np} {message : Message} {count : Nat}
    (exchanged : Exchanged header answers filling m.restart p message count m1 m2)
    (kept : m.Kept header memory) (caller : vmIsokendpt header m.vm message.source = some p)
    (sized : message.Sized count)
    (whole : (.yieldblockGetblock answers message : Event np).Whole header m.vm) :
    Serves (m.stored header) (m.restart.exchange header answers filling p message count)
      (m2.stored header) := by
  obtain ⟨getting, housed⟩ := exchanged.middle kept caller sized whole
  have kept0 := kept.restart
  obtain ⟨order0, books0⟩ := kept0.orderly.wellformed.books
  obtain ⟨order1, books1⟩ := getting.wellformed.books
  have first : ∃ code, (if message.yieldid = header.vmBlockidNone then .ok (.esrch, m.restart)
      else m.restart.yieldblock header answers filling p message.yieldid message.vaddr count) =
        .ok (code, m1) ∧
      Serves (m.stored header) (if code = .ok then [.put ⟨(m.vm.vmproc p).vmEndpoint,
        message.yieldid⟩ (m.restart.read p message.vaddr count)] else []) (m1.stored header) := by
    rcases exchanged.yielded with ⟨none, rfl⟩ | ⟨some, code, result⟩
    · exact ⟨.esrch, if_pos none, Within.refl _⟩
    · refine ⟨code, (if_neg some).trans result, ?_⟩
      obtain ⟨failed, done⟩ := (yieldblock_put header answers filling kept0.orderly.wellformed
        kept0.housed p message.yieldid message.vaddr count sized.short.le).of_eq result
      by_cases isOk : code = .ok
      · obtain ⟨block, isId, search, put⟩ := done isOk
        rw [if_pos isOk]
        exact isId ▸ put.serves books0 search
      · rw [if_neg isOk]
        exact (failed isOk).thinned.within books0
  have second : ∃ code, (if message.getid = header.vmBlockidNone then .ok (.esrch, m1)
      else m1.getblock header answers filling p message.getid message.vaddr count) =
        .ok (code, m2) ∧
      Serves (m1.stored header) (if code = .ok then [.take ⟨(m1.vm.vmproc p).vmEndpoint,
        message.getid⟩ (m2.read p message.vaddr count)] else []) (m2.stored header) := by
    rcases exchanged.got with ⟨none, rfl⟩ | ⟨some, code, result⟩
    · exact ⟨.esrch, if_pos none, Within.refl _⟩
    · refine ⟨code, (if_neg some).trans result, ?_⟩
      obtain ⟨failed, done⟩ := (getblock_take header answers filling getting.wellformed housed p
        message.getid message.vaddr sized.1 sized.short (getting.wanted some)).of_eq result
      by_cases isOk : code = .ok
      · obtain ⟨node, search, take⟩ := done isOk
        rw [if_pos isOk]
        exact take.serves books1 search
      · rw [if_neg isOk]
        exact (failed isOk).thinned.within books1
  obtain ⟨code, yielded, put⟩ := first
  obtain ⟨code', got, take⟩ := second
  unfold exchange
  rw [yielded]
  dsimp only
  rw [got]
  exact put.trans take

theorem thinned_of (wellformed : Wellformed header m.vm) (fewer : Fewer m.vm m'.vm)
    (pages : ∀ node h, node ∈ m.vm.vmYieldedBlocks h → ∀ page ∈ (m.vm.yielded node).range,
      m'.memory page = m.memory page) : m.Thinned m' := by
  refine ⟨fewer.nodes, fun node => (fewer.same node).1, fun node h inTree => ?_⟩
  obtain ⟨h', before⟩ := fewer.nodes node h inTree
  exact blockPages_congr (fewer.same node) (pages node h' before) (wellformed.nodes h' node before)

theorem store_pages (kept : m.Kept header memory) (p : Fin np) (vaddr : Nat)
    (change : Page → Page) {node : Ptr} {h : Nat} (inTree : node ∈ m.vm.vmYieldedBlocks h) {other : Nat}
    (inRange : other ∈ (m.vm.yielded node).range) :
    (m.store p vaddr change).memory other = m.memory other := by
  have blocks := kept.orderly.wellformed.blocks
  unfold store
  cases found : pageAt m.vm p vaddr with
  | none => rfl
  | some place =>
      obtain ⟨r, pr⟩ := place
      obtain ⟨i, slot, resident⟩ := pageAt_slot found
      have counted := blocks.referenced (blocks.slotOf slot).1 resident
      refine Function.update_of_ne (fun same => ?_) _ _
      have here : other ∈ holding m.vm (.block pr.ph) :=
        ⟨counted, by rw [same, click2abs_abs2click (blocks.pages pr.ph counted)]⟩
      have there : other ∈ holding m.vm (.yielded node) := ⟨⟨h, inTree⟩, inRange⟩
      exact Place.noConfusion (kept.housed.unique here there)

theorem happen_spares (filling : Filling Page) (kept : m.Kept header memory) {event : Life np}
    (unasked : ∀ answers message, event ≠ .request (.yieldblockGetblock answers message)) :
    Ends (fun _ => True) (m.Spares ·) (m.happen header filling event) := by
  by_cases faulted : ∃ answers p vaddr, event = .fault answers p vaddr
  · obtain ⟨answers, p, vaddr, rfl⟩ := faulted
    rw [happen]
    refine (pagefault_handled header answers filling kept.restart p vaddr).imp fun m' after => ?_
    rcases after with rfl | ⟨r, i, -, handled⟩
    · exact fun _ _ => rfl
    · exact handled.spares
  · rw [happen]
    · refine Ends.map ?_
      cases Vm.happen header m.vm event with
      | error stop => trivial
      | ok vm' => exact fun _ _ => rfl
    · exact fun answers p vaddr same => faulted ⟨answers, p, vaddr, same⟩
    · exact unasked

theorem happen_thinned (kept : m.Kept header memory) {event : Life np}
    (permitted : event.Permitted header m.vm)
    (unasked : ∀ answers message, event ≠ .request (.yieldblockGetblock answers message)) :
    Ends (fun _ => True) (m.Thinned ·) (m.happen header filling event) := by
  have wellformed := kept.orderly.wellformed
  have staged := kept.housed.staged wellformed.blocks
  have fewer := happen_fewer kept.orderly permitted unasked
  rw [← happen_bare header filling] at fewer
  refine ((fewer.of_map.and (happen_spares filling kept unasked)).stop
    fun _ _ => trivial).imp fun m' after => thinned_of wellformed after.1
      fun node h inTree page inRange => after.2 page ?_
  exact staged.yielded_used inTree (by simp) inRange

theorem store_within (kept : m.Kept header memory) (p : Fin np) (vaddr : Nat)
    (change : Page → Page) :
    Within ((m.store p vaddr change).stored header) (m.stored header) := by
  obtain ⟨order, books⟩ := kept.orderly.wellformed.books
  have same := store_vm m p vaddr change
  have thinned : m.Thinned (m.store p vaddr change) :=
    thinned_of kept.orderly.wellformed (same ▸ .refl m.vm) fun node h inTree other inRange =>
      store_pages kept p vaddr change inTree inRange
  exact thinned.within books

theorem act_serves (kept : m.Kept header memory) {act : Act np Page}
    (permitted : act.Permitted header m.vm) (whole : act.Whole header m.vm) :
    Ends (fun _ => True) (fun m' => Serves (m.stored header) (m.accesses header filling act)
      (m'.stored header)) (m.perform header filling act) := by
  obtain ⟨order, books⟩ := kept.orderly.wellformed.books
  cases act with
  | store answers p vaddr change =>
      refine write_rule (fun _ => store_within kept p vaddr change) ?_
      have faulted : Ends (fun _ => True) (m.Thinned ·)
          (m.happen header filling (.fault answers p vaddr)) := happen_thinned kept trivial nofun
      refine ((faulted.and (happen_kept kept (.fault answers p vaddr) trivial trivial)).stop
        fun _ _ => trivial).imp fun m1 after => ?_
      have within := after.1.within books
      exact ⟨fun _ => within, fun _ => (store_within after.2 p vaddr change).trans within⟩
  | call event =>
      by_cases asked : ∃ answers message, event = .request (.yieldblockGetblock answers message)
      · obtain ⟨answers, message, rfl⟩ := asked
        rw [perform_call, happen, accesses]
        cases caller : vmIsokendpt header m.vm message.source with
        | none =>
            have caller' : vmIsokendpt header m.restart.vm message.source = none := caller
            unfold doYieldblockgetblock
            rw [caller']
            trivial
        | some p =>
            dsimp only
            refine Ends.map ((doYieldblockgetblock_parts m.restart caller).imp fun result after => ?_)
            rcases after with ⟨unsized, same⟩ | ⟨count, m1, sized, exchanged⟩
            · rw [same, if_pos]
              · exact Within.refl _
              · by_contra bad
                exact unsized _ (Message.sized bad)
            · obtain ⟨whole', size⟩ := sized.unique
              have positive := sized.1
              rw [if_neg (by omega), size, Int.toNat_natCast]
              exact exchanged.serves kept caller sized whole
      · have unasked (answers : Answers) (message : Message) :
            event ≠ .request (.yieldblockGetblock answers message) :=
          fun same => asked ⟨answers, message, same⟩
        have thinned : Ends (fun _ => True) (m.Thinned ·) (m.happen header filling event) :=
          happen_thinned kept permitted unasked
        rw [perform_call]
        cases event with
        | begin | map | fault | fork => exact thinned.imp fun m' after => after.within books
        | request event =>
            have forgets : Ends (fun _ => True) _ (Vm.happen header m.vm (.request event)) :=
              step_forgets kept.orderly event
            rw [← happen_bare header filling] at forgets
            rw [accesses]
            · refine ((thinned.and forgets.of_map).stop fun _ _ => trivial).imp fun m' after => ?_
              intro id pages held
              obtain ⟨node, h, inTree, rfl, -⟩ := stored_some held
              show (if event.forgets header m.vm (m'.vm.yielded node).id then none
                else m.stored header _) = some pages
              rw [after.2 node h inTree, if_neg Bool.false_ne_true]
              exact after.1.within books _ pages held
            · exact fun answers message same => unasked answers message (congrArg _ same)

theorem log_serves (kept : m.Kept header memory) (acts : List (Act np Page))
    (sound : Runs.EveryStep (alive header filling)
      (Alive fun m act => act.Permitted header m.vm ∧ act.Whole header m.vm) (.ok m) acts) :
    ∃ after, Serves (m.stored header) (m.log header filling acts) after := by
  induction acts generalizing m with
  | nil => exact ⟨_, Within.refl _⟩
  | cons act acts ih =>
      obtain ⟨now, later⟩ := sound
      obtain ⟨permitted, whole⟩ := now m rfl
      have next : alive header filling (.ok m) act = m.perform header filling act := rfl
      rw [next] at later
      rw [log]
      cases performed : m.perform header filling act with
      | error stop => exact ⟨_, Within.refl _⟩
      | ok m' =>
          rw [performed] at later
          have serves := (act_serves kept permitted whole).of_eq performed
          obtain ⟨after, rest⟩ := ih ((act_kept kept act permitted whole).of_eq performed) later
          exact ⟨after, serves.trans rest⟩

end Machine

/-- The page is put as it was stored, and taken as it was put. -/
example : (smallMachine.log smallHeader smallFilling smallActs).filterMap (fun
      | .put key value | .take key value => some (key, value)
      | .discard _ => none) = [(⟨1, 5⟩, [some 5]), (⟨1, 5⟩, [some 5])] := by
  decide +kernel

end Ve482.Vm
