import LocalFleet.Proofs.Record.Table
import LocalFleet.Proofs.Run.Yield
import LocalFleet.Proofs.Sorting
import LocalFleet.Run.Health

/-! Which node tells the ids of a fleet. A wait for a healthy fleet picks the first of the listed nodes whose
names come first, before any table of the nodes is made; the table is a stable sort of the list, so that the
same node is the first in it. -/

namespace LocalFleet

/-- A node is the first in a list of those whose names come first, in the order of their bytes. -/
def Foremost (nodes : List NodeSpec) (node : NodeSpec) : Prop :=
  ∃ before after, nodes = before ++ node :: after ∧
    (∀ b ∈ before, Text.bytes node.name < Text.bytes b.name) ∧
    ∀ a ∈ after, Text.bytes node.name ≤ Text.bytes a.name

theorem leastNamed_eq_none_iff {nodes : List NodeSpec} : leastNamed nodes = none ↔ nodes = [] := by
  cases nodes with
  | nil => simp [leastNamed]
  | cons n ns =>
    rw [leastNamed]
    cases leastNamed ns with
    | none => simp
    | some m => by_cases h : Text.le n.name m.name = true <;> simp [h]

theorem foremost_of_leastNamed {nodes : List NodeSpec} {node : NodeSpec} (h : leastNamed nodes = some node) :
    Foremost nodes node := by
  induction nodes generalizing node with
  | nil => simp [leastNamed] at h
  | cons n ns ih =>
    rw [leastNamed] at h
    cases hrest : leastNamed ns with
    | none =>
      obtain rfl := leastNamed_eq_none_iff.1 hrest
      rw [hrest] at h
      obtain rfl := Option.some.inj h
      exact ⟨[], [], rfl, by simp, by simp⟩
    | some m =>
      obtain ⟨before, after, rfl, hbefore, hafter⟩ := ih hrest
      rw [hrest] at h
      simp only [Text.le, decide_eq_true_eq] at h
      by_cases hle : Text.bytes n.name ≤ Text.bytes m.name
      · rw [if_pos hle] at h
        obtain rfl := Option.some.inj h
        refine ⟨[], _, rfl, by simp, fun a ha => ?_⟩
        rcases List.mem_append.1 ha with ha | ha
        · exact List.le_trans hle (List.le_of_lt (hbefore a ha))
        · rcases List.mem_cons.1 ha with rfl | ha
          · exact hle
          · exact List.le_trans hle (hafter a ha)
      · rw [if_neg hle] at h
        obtain rfl := Option.some.inj h
        exact ⟨n :: before, after, rfl, List.forall_mem_cons.2 ⟨List.not_le.1 hle, hbefore⟩, hafter⟩

namespace ClusterView

variable {nodes : List NodeSpec} {node : NodeSpec} {ids : ChainIds} {view : ClusterView}

theorem le_trans_name (a b c : NodeSpec) (h : Text.le a.name b.name = true) (h' : Text.le b.name c.name = true) :
    Text.le a.name c.name = true := Text.le_trans h h'

theorem le_total_name (a b : NodeSpec) : (Text.le a.name b.name || Text.le b.name a.name) = true :=
  Text.le_total a.name b.name

theorem pairwise_ordered (nodes : List NodeSpec) :
    (ordered nodes).Pairwise fun a b => Text.bytes a.name ≤ Text.bytes b.name := by
  have hsorted := List.pairwise_mergeSort le_trans_name le_total_name nodes
  exact hsorted.imp fun h => by simpa [Text.le] using h

theorem filter_ordered (nodes : List NodeSpec) (name : String) :
    (ordered nodes).filter (·.name = name) = nodes.filter (·.name = name) := by
  refine filter_mergeSort le_trans_name le_total_name (fun a b ha hb => ?_) nodes
  have hname : a.name = b.name := by simp only [decide_eq_true_eq] at ha hb; rw [ha, hb]
  simpa [hname] using Text.le_total b.name b.name

theorem head?_ordered (h : Foremost nodes node) : (ordered nodes).head? = some node := by
  obtain ⟨before, after, rfl, hbefore, hafter⟩ := h
  refine head?_mergeSort le_trans_name le_total_name (fun b hb => ?_) fun a ha => ?_
  · simpa [Text.le, List.not_le] using hbefore b hb
  · simpa [Text.le] using hafter a ha

theorem foremost_unique {other : NodeSpec} (h : Foremost nodes node) (h' : Foremost nodes other) :
    node = other := Option.some.inj ((head?_ordered h).symm.trans (head?_ordered h'))

theorem ofNodes_eq_ok_iff : ofNodes nodes ids = .ok view ↔
    nodes ≠ [] ∧ view.nodes = ordered nodes ∧ view.ids = ids := by
  unfold ofNodes
  by_cases h : nodes = []
  · simp [h]
  · obtain ⟨_, _, _⟩ := view
    simp [h, eq_comm]

theorem first_of_head? (h : view.nodes.head? = some node) : view.first = node := by
  rw [List.head?_eq_some_head view.nonempty] at h
  exact Option.some.inj h

/-- A view tells of listed nodes: it has all of them, in the order of their names, and those of one name in
the order in which they are listed. -/
structure Orders (view : ClusterView) (nodes : List NodeSpec) : Prop where
  perm : view.nodes.Perm nodes
  pairwise : view.nodes.Pairwise fun a b => Text.bytes a.name ≤ Text.bytes b.name
  stable : ∀ name, view.nodes.filter (·.name = name) = nodes.filter (·.name = name)

theorem orders_of_ofNodes (h : ofNodes nodes ids = .ok view) : view.Orders nodes := by
  have hnodes := (ofNodes_eq_ok_iff.1 h).2.1
  refine ⟨?_, ?_, fun name => ?_⟩ <;> rw [hnodes]
  · exact List.mergeSort_perm ..
  · exact pairwise_ordered nodes
  · exact filter_ordered nodes name

end ClusterView

namespace Health

open Plan Stage

variable {σ : Type} {s t : σ} {limit : UInt64} {nodes : List NodeSpec} {node : NodeSpec} {ids : ChainIds}
  {view : ClusterView} {since : List Reply}

def listing (limit : UInt64) (nodes : List NodeSpec) : List Reply :=
  [⟨.awaitHealth "cluster health" limit, .ok ()⟩, ⟨.listNodes "node list", .ok nodes⟩]

def idReplies (node : NodeSpec) (ids : ChainIds) : List Reply :=
  [⟨.call "AVAX asset id" node (.getAssetId "AVAX"), .ok ids.asset⟩,
    ⟨.call "X-chain id" node (.getBlockchainId "X"), .ok ids.exchange⟩,
    ⟨.call "C-chain id" node (.getBlockchainId "C"), .ok ids.contract⟩]

/-- The part of a wait that follows once the node is chosen that tells the ids. -/
def announce (nodes : List NodeSpec) (node : NodeSpec) : Stage σ ClusterView := do
  let ids ← askIds node
  let view ← Stage.lift (ClusterView.ofNodes nodes ids)
  Stage.ask .announceReady
  return view

theorem wait_reaches_of_none (h : leastNamed nodes = none) :
    (wait limit s).Reaches (listing limit nodes) (.done (.error (.cluster .noNodes), s)) := by
  refine .answered (.answered ?_)
  simp only [Plan.bind, ExceptT.bindCont, h]
  exact .here _

theorem wait_reaches_of_some (h : leastNamed nodes = some node) :
    (wait limit s).Reaches (listing limit nodes) (announce nodes node s) := by
  refine .answered (.answered ?_)
  simp only [Plan.bind, ExceptT.bindCont, h]
  exact .here _

theorem announce_asks (nodes : List NodeSpec) (node : NodeSpec) :
    Asks (fun q => (∃ what c, q = .call what node c) ∨ q = .announceReady) False
      (announce nodes node : Stage σ ClusterView) := by
  have hcall (what : String) (c : Call) : Asks (fun q => (∃ what c, q = .call what node c) ∨ q = .announceReady)
      False (Stage.call what node c : Stage σ c.Answer) := asks_call (.inl ⟨what, c, rfl⟩)
  have hids : Asks (fun q => (∃ what c, q = .call what node c) ∨ q = .announceReady) False
      (askIds node : Stage σ ChainIds) :=
    (hcall _ _).bind fun _ => (hcall _ _).bind fun _ => (hcall _ _).bind fun _ => asks_pure _
  exact hids.bind fun _ => (asks_lift _).bind fun _ => (asks_ask (.inr rfl)).bind fun _ => asks_pure _

theorem announce_reaches (h : ClusterView.ofNodes nodes ids = .ok view) :
    (announce nodes node s).Reaches (idReplies node ids ++ [⟨.announceReady, ()⟩])
      (.done (.ok view, s)) := by
  have hids : (askIds node s).Reaches (idReplies node ids) (.done (.ok ids, s)) :=
    reaches_call_bind (reaches_call_bind (reaches_call_bind (.here _)))
  exact reaches_bind_ok hids (reaches_lift_bind h (reaches_ask_bind (.here _)))

theorem announce_yields (nodes : List NodeSpec) (node : NodeSpec) (s : σ) :
    Yields (fun since view t => since = idReplies node view.ids ++ [⟨.announceReady, ()⟩] ∧ t = s ∧
      ClusterView.ofNodes nodes view.ids = .ok view) s (announce nodes node) := by
  have hids : Yields (fun since ids t => since = idReplies node ids ∧ t = s) s (askIds node) :=
    yields_call_bind fun _ => yields_call_bind fun _ => yields_call_bind fun _ => yields_pure ⟨rfl, rfl⟩
  refine hids.bind ?_
  rintro _ ids _ ⟨rfl, rfl⟩
  refine yields_lift_bind fun view hview => yields_ask_bind fun _ _ => yields_pure ⟨?_, rfl, ?_⟩
  · rw [(ClusterView.ofNodes_eq_ok_iff.1 hview).2.2]
  · rwa [(ClusterView.ofNodes_eq_ok_iff.1 hview).2.2]

theorem questions_of_announce {rest : Plan (Result ClusterView × σ)}
    (h : (announce nodes node s).Reaches since rest) :
    ∀ r ∈ since, (∃ what c, r.question = .call what node c) ∨ r.question = .announceReady := by
  have hkeeps := (announce_asks nodes node).keeps (I := fun _ => True)
    (L := Law.asking fun q => (∃ what c, q = .call what node c) ∨ q = .announceReady)
    (fun _ _ _ hq => hq) (fun _ _ _ _ _ _ _ => trivial) (fun _ _ _ => trivial) (g := ()) trivial s
  exact (Keeps.of_reaches hkeeps h).1

/-- A fleet without nodes ends the wait with nothing more asked and nothing announced. Of any other, one node
is asked for all ids, the first of those whose names come first; a wait that ends well has asked that node
for each of them and announced the fleet, and its view has all nodes in order with that node in front. -/
theorem wait_settles_on_first (limit : UInt64) (nodes : List NodeSpec) (s : σ) :
    (nodes = [] → ∀ since rest, (wait limit s).Reaches (listing limit nodes ++ since) rest ↔
      since = [] ∧ rest = .done (.error (.cluster .noNodes), s)) ∧
    (nodes ≠ [] → ∃ node, Foremost nodes node ∧
      (∀ since rest, (wait limit s).Reaches (listing limit nodes ++ since) rest →
        ∀ r ∈ since, (∃ what c, r.question = .call what node c) ∨ r.question = .announceReady) ∧
      (∀ ids, ∃ view, view.ids = ids ∧ (wait limit s).Reaches
        (listing limit nodes ++ (idReplies node ids ++ [⟨.announceReady, ()⟩])) (.done (.ok view, s))) ∧
      ∀ since view t, (wait limit s).Reaches (listing limit nodes ++ since) (.done (.ok view, t)) →
        since = idReplies node view.ids ++ [⟨.announceReady, ()⟩] ∧ t = s ∧ view.first = node ∧
          view.Orders nodes) := by
  constructor
  · intro hnodes since rest
    have hnone : (wait limit s).Reaches (listing limit nodes) (.done (.error (.cluster .noNodes), s)) :=
      wait_reaches_of_none (leastNamed_eq_none_iff.2 hnodes)
    constructor
    · intro h
      obtain ⟨left, hleft, hmore⟩ := h.split
      obtain rfl := hleft.unique hnone
      obtain rfl := hmore.eq_nil_of_done
      exact ⟨rfl, hmore.eq_of_nil⟩
    · rintro ⟨rfl, rfl⟩
      simpa using hnone
  · intro hnodes
    obtain ⟨node, hnode⟩ := Option.ne_none_iff_exists'.1 (mt leastNamed_eq_none_iff.1 hnodes)
    have hforemost := foremost_of_leastNamed hnode
    have hlisted : (wait limit s).Reaches (listing limit nodes) (announce nodes node s) :=
      wait_reaches_of_some hnode
    have hmore {since : List Reply} {rest : Plan (Result ClusterView × σ)}
        (h : (wait limit s).Reaches (listing limit nodes ++ since) rest) :
        (announce nodes node s).Reaches since rest := by
      obtain ⟨left, hleft, hmore⟩ := h.split
      rwa [hleft.unique hlisted] at hmore
    refine ⟨node, hforemost, fun since rest h => questions_of_announce (hmore h), fun ids => ?_,
      fun since view t h => ?_⟩
    · have hview : ClusterView.ofNodes nodes ids = .ok ⟨_, ids, ClusterView.ordered_ne_nil hnodes⟩ :=
        ClusterView.ofNodes_eq_ok_iff.2 ⟨hnodes, rfl, rfl⟩
      exact ⟨_, rfl, hlisted.trans (announce_reaches hview)⟩
    · have hfair : ∀ r ∈ since, r.question.Fair r.answer := by
        rintro ⟨q, answer⟩ hr
        rcases questions_of_announce (hmore h) _ hr with ⟨what, c, rfl⟩ | rfl <;> trivial
      obtain ⟨hsince, ht, hview⟩ := announce_yields nodes node s since view t (hmore h) hfair
      have hfirst : view.nodes.head? = some node := by
        rw [(ClusterView.ofNodes_eq_ok_iff.1 hview).2.1]
        exact ClusterView.head?_ordered hforemost
      exact ⟨hsince, ht, ClusterView.first_of_head? hfirst, ClusterView.orders_of_ofNodes hview⟩

/-- The names are texts: the tenth node comes before the second, and of two with one name the one that is
listed first. -/
theorem wait_settles_on_first_specimen :
    let second : NodeSpec := ⟨"node2", "NodeID-2", "http://a"⟩
    let tenth : NodeSpec := ⟨"node10", "NodeID-10", "http://c"⟩
    let other : NodeSpec := ⟨"node10", "NodeID-11", "http://b"⟩
    [second, tenth, other] ≠ [] ∧ ∃ view, (wait 5 ()).Reaches
      (listing 5 [second, tenth, other] ++ (idReplies tenth ⟨"a", "x", "c"⟩ ++ [⟨.announceReady, ()⟩]))
      (.done (.ok view, ())) ∧ view.first = tenth ∧ view.Orders [second, tenth, other] := by
  intro second tenth other
  have hne : [second, tenth, other] ≠ [] := List.cons_ne_nil _ _
  have htenth : Foremost [second, tenth, other] tenth := ⟨[second], [other], rfl, by decide, by decide⟩
  obtain ⟨node, hnode, -, hgoes, hends⟩ := (wait_settles_on_first 5 [second, tenth, other] ()).2 hne
  obtain rfl := ClusterView.foremost_unique hnode htenth
  obtain ⟨view, -, hreaches⟩ := hgoes ⟨"a", "x", "c"⟩
  obtain ⟨-, -, hfirst, horders⟩ := hends _ view () hreaches
  exact ⟨hne, view, hreaches, hfirst, horders⟩

end Health

end LocalFleet
