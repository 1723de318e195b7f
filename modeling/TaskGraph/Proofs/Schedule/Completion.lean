import TaskGraph.Proofs.Graph.Built
import TaskGraph.Proofs.Schedule.Run

/-!
A run of a built graph never gets stuck: when a pass leaves nothing under way, every node has ended.
-/

namespace TaskGraph.Schedule

section Completion

variable {graph : Graph} {scope : Scope} {h : History} {s : Schedule}

/-- An open node whose references have all ended is ready or dead. -/
theorem ready_or_dead {n : GraphNode Graph} (hn : n ∈ s.graph.nodes) (ho : s.isOpen n.id = true)
    (hr : ∀ id ∈ n.references, (s.status id).isTerminal = true) :
    n ∈ s.ready ∨ ∃ reason, s.deadReason? n = some reason := by
  cases hready : n.isReady s.status with
  | true => exact .inl (s.mem_ready.mpr ⟨hn,ho,hready⟩)
  | false =>
    cases hd : n.dependency with
    | none => simp [GraphNode.isReady,hd] at hready
    | some d =>
      have hf : Dependency.holds s.status d = false := by
        simpa [GraphNode.isReady,hd] using hready
      have hu := Dependency.unsatisfied_of_not_holds
        (fun id hid => hr id (GraphNode.mem_references.mpr ⟨d,hd,hid⟩)) hf
      exact .inr ⟨s.skipReason d,deadReason?_eq_some.mpr ⟨ho,d,hd,hu,rfl⟩⟩

/-- The induction follows the dependencies: the nodes that a node waits for have ended before. -/
theorem Reaches.isTerminal_of_idle (hr : Reaches graph scope h s) (hg : graph.Sound) (now : Instant)
    (hi : (s.pass now).1.inFlight = []) :
    ∀ id ∈ graph.ids, ((s.pass now).1.status id).isTerminal = true := by
  have hs := (hr.consistent hg).resolveDead now
  have hgraph : (s.resolveDead now).graph = graph := (resolveDead_frame now s).1.trans hr.graph_eq
  rw [pass_fst,dispatch_inFlight,List.append_eq_nil_iff,List.map_eq_nil_iff] at hi
  rw [pass_fst,dispatch_status]
  intro id
  induction id using hg.wellFounded.induction with
  | _ id ih =>
    intro hid
    obtain ⟨n,hn,rfl⟩ := Graph.mem_ids.mp hid
    have hrefs : ∀ id ∈ n.references, ((s.resolveDead now).status id).isTerminal = true :=
      fun id hid => ih id (hg.mem_dependencies hn hid) (hg.closed n hn id hid)
    cases hst : (s.resolveDead now).status n.id with
    | running =>
      have hf := hs.running n.id hst
      rw [hi.1] at hf
      cases hf
    | pending =>
      have ho : (s.resolveDead now).isOpen n.id = true :=
        isOpen_iff.mpr ⟨hst,by rw [hi.1]; exact List.not_mem_nil⟩
      rcases ready_or_dead (hgraph ▸ hn) ho hrefs with hready | ⟨reason,hd⟩
      · rw [hi.2] at hready
        cases hready
      · have hnone := resolveDead_none_dead now (hr.consistent hg).table n
          (hr.graph_eq ▸ hn)
        rw [hnone] at hd
        cases hd
    | _ => rfl

/-- Where every node has ended there is nothing to cancel. -/
theorem sweep_eq_self (hs : s.IsTable) (hd : s.graph.ids.Nodup)
    (ht : ∀ id ∈ s.graph.ids, (s.status id).isTerminal = true) (now : Instant) :
    s.sweep now = s := by
  have hrecord (r : Record) (hr : r ∈ s.records) : (r.cancel now 0).1 = r := by
    have hid : r.node ∈ s.graph.ids := hs ▸ List.mem_map.mpr ⟨r,hr,rfl⟩
    have hst := s.status_eq (hs.record?_of_mem hd hr)
    exact (Record.cancel_respects now 0 r).2 (hst ▸ ht r.node hid)
  rw [sweep,List.map_congr_left hrecord,List.map_id']

/-- In a run of a graph that was built, outermost or nested, a pass that leaves nothing under way
leaves no node that has not ended, so that the sweep after it finds nothing to cancel. -/
theorem idle_pass_completes {cap : Nat} {d : Definition} {g : Graph} (hb : d.build cap = .ok g)
    (hk : d.isKeyed = true) (hc : g.Contains graph) (hr : Reaches graph scope h s) (now : Instant)
    (hi : (s.pass now).1.inFlight = []) :
    (∀ n ∈ graph.nodes, ((s.pass now).1.status n.id).isTerminal = true) ∧
    ∀ later, (s.pass now).1.sweep later = (s.pass now).1 := by
  have hg := Definition.sound_of_build hb hk hc
  have hids := hr.isTerminal_of_idle hg now hi
  have hpass : Reaches graph scope _ (s.pass now).1 := hr.pass now
  refine ⟨fun n hn => hids n.id (Graph.mem_ids_of_mem hn),fun later => ?_⟩
  refine sweep_eq_self (hpass.consistent hg).table ?_ ?_ later
  · rw [hpass.graph_eq]
    exact hg.nodup
  · rw [hpass.graph_eq]
    exact hids

end Completion

namespace Detour

abbrev graph : Graph := Definition.detour.block.toGraph standardCap

abbrev time : Instant := .ofMillis 0

abbrev taken : Report := ⟨.success .null ["long"],1,time⟩

abbrev done : Report := ⟨.success .null [],1,time⟩

abbrev failed : Report := ⟨.failed (.internal "out of order"),2,time⟩

abbrev picking : Schedule := ((start graph {}).scan time).dispatch

abbrev shortWay : Schedule := ((picking.apply time (.finished "pick" taken)).scan time).dispatch

abbrev joining : Schedule := ((shortWay.apply time (.finished "short" done)).scan time).dispatch

abbrev broken : Schedule := joining.apply time (.finished "join" failed)

theorem reaches_picking : Reaches graph {} [.dispatch "pick"] picking :=
  Reaches.start.scan time (by decide)

theorem reaches_shortWay : Reaches graph {} [.dispatch "pick",.event (.finished "pick" taken),
    .dispatch "short"] shortWay := by
  have ha : picking.Awaits (.finished "pick" taken) := ⟨by decide,by decide⟩
  exact (reaches_picking.event time ha).scan time (by decide)

theorem reaches_joining : Reaches graph {} [.dispatch "pick",.event (.finished "pick" taken),
    .dispatch "short",.event (.finished "short" done),.dispatch "join"] joining := by
  have ha : shortWay.Awaits (.finished "short" done) := ⟨by decide,by decide⟩
  exact (reaches_shortWay.event time ha).scan time (by decide)

theorem reaches_broken : Reaches graph {} [.dispatch "pick",.event (.finished "pick" taken),
    .dispatch "short",.event (.finished "short" done),.dispatch "join",
    .event (.finished "join" failed)] broken :=
  reaches_joining.event time ⟨by decide,by decide⟩

theorem broken_pass : (broken.pass time).1 = (broken.scan time).dispatch := by
  rw [pass_fst,resolveDead_eq_scan (by decide)]

end Detour

/-- Nothing is open after the join has failed, and the way not taken has been given up. -/
theorem idle_pass_completes_detour :
    (∀ n ∈ Detour.graph.nodes, ((Detour.broken.pass Detour.time).1.status n.id).isTerminal = true) ∧
    (Detour.broken.pass Detour.time).1.status "last" = .skipped := by
  have hi : (Detour.broken.pass Detour.time).1.inFlight = [] := by
    rw [Detour.broken_pass]
    decide
  refine ⟨(idle_pass_completes Definition.detour_build Definition.detour_isKeyed (.self _)
    Detour.reaches_broken Detour.time hi).1,?_⟩
  rw [Detour.broken_pass]
  decide

end TaskGraph.Schedule
