import Redis.Admission
import Redis.ReplicaSound
import Redis.Wire
import Redis.Words

/-!
# The requests of the handshake

A replica asks its master for four things, and for the next one when it has read
the answer. The master answers each of them at once, and the last one makes the
replica a slave.
-/

namespace Redis

open Lib CmdHandler

inductive Request where
  | ping
  | listeningPort (port : Nat)
  | capa
  | psync

namespace Request

def state : Request → HandShakeState
  | ping => .ping
  | listeningPort _ => .replconf1
  | capa => .replconf2
  | psync => .psync

def words : Request → List String
  | ping => ["PING"]
  | listeningPort port => ["REPLCONF", "listening-port", toString port]
  | capa => ["REPLCONF", "capa", "psync2"]
  | psync => ["PSYNC", "?", "-1"]

def value (q : Request) : RespType := .arrayOf (q.words.map .bulk)

def cmd : Request → Cmd
  | ping => .ping
  | listeningPort port => .replconf (.listeningPort port)
  | capa => .replconf (.capa "psync2")
  | psync => .psync "?" (-1)

def Fits : Request → Prop
  | listeningPort port => port < 2 ^ 16
  | _ => True

def next (port : Nat) : Request → Request
  | ping => listeningPort port
  | listeningPort _ => capa
  | capa | psync => psync

/-- How many values are read before the handshake is over, once this request has been. -/
def left : Request → Nat
  | ping => 8
  | listeningPort _ => 6
  | capa => 4
  | psync => 2

def fullresync (offset : Int) : RespType :=
  .simpleStr (some ("FULLRESYNC 8371b4fb1155b71f4a04d3e1bc3e18c4a990aeeb " ++ toString (max offset 0)))

def snapshot : RespType := .rdb (some emptyRdb)

def answer (offset : Int) : Request → RespType
  | ping => .simpleStr (some "PONG")
  | listeningPort _ | capa => .simpleStr (some "OK")
  | psync => .bytes (some ((fullresync offset).frame ++ snapshot.frame))

def table (s : Nat) (t : ClientTable) : Request → ClientTable
  | psync => t.setSlave s
  | _ => t

section
variable {P : Platform} {q : Request} {offset : Int}

theorem fromResp (hq : q.Fits) : Cmd.fromResp P q.value = .ok (.ok q.cmd) := by
  cases q with
  | ping => exact Cmd.fromResp_ping
  | listeningPort port => exact Cmd.fromResp_listeningPort hq
  | capa => exact Cmd.fromResp_capa
  | psync => exact Cmd.fromResp_psync

theorem size_words (hq : q.Fits) : ∀ word ∈ q.words, word.utf8ByteSize ≤ isizeMax := by
  cases q with
  | listeningPort port =>
    have hport : (toString port).utf8ByteSize ≤ 5 := utf8ByteSize_toString (by decide) (Nat.lt_trans hq (by decide))
    simp only [words, List.forall_mem_cons]
    exact ⟨by decide, by decide, Nat.le_trans hport (by decide), fun _ h => by cases h⟩
  | ping | capa | psync => decide

theorem wellFormed (hq : q.Fits) : q.value.WellFormed := by
  have hne : q.words ≠ [] := by cases q <;> simp [words]
  have hlength : q.words.length ≤ 3 := by cases q <;> simp [words]
  exact wellFormed_bulks hne (Nat.le_trans hlength (by decide)) (size_words hq)

theorem wellFormed_line {s : String} (h : (10 : UInt8) ∉ utf8 s) : (RespType.simpleStr (some s)).WellFormed := by
  rw [RespType.WellFormed]
  intro hin
  exact h (hin.subset (by decide))

theorem wellFormed_fullresync : (fullresync offset).WellFormed := by
  have hoffset : ∃ n : Nat, max offset 0 = n := Int.eq_ofNat_of_zero_le (by omega)
  obtain ⟨n, hn⟩ := hoffset
  refine wellFormed_line ?_
  have hdigits : toString (n : Int) = toString n := rfl
  rw [hn, hdigits, utf8_append, List.mem_append]
  intro h
  rcases h with h | h
  · exact absurd h (by decide)
  · exact absurd (digit_of_mem_utf8_toString h).1 (by decide)

theorem fromResp_fullresync (hfits : offset < 2 ^ 63) :
    Cmd.fromResp P (fullresync offset) =
      .ok (.ok (.fullresync "8371b4fb1155b71f4a04d3e1bc3e18c4a990aeeb" (max offset 0))) :=
  Cmd.fromResp_fullresync (by omega) (by omega)

theorem serialize_answer : (q.answer offset).serialize = some (q.answer offset).frame := by
  cases q <;> rfl

/-! ## The master -/

def served (h : CmdHandler) (s : Nat) (q : Request) : CmdHandler :=
  { h.prepared q.cmd h.appStates with
    clientTable := q.table s h.clientTable, flagBacklogList := false, flagBacklogStream := false }

variable {o : IterOrder} {s : Nat} {fd : Int} {h : CmdHandler} {stats : ReplStats} {client : TcpClient}

theorem dispatch_request {exec : CmdHandler → Nat → Option (CmdHandler × CmdResult)} {now : Nat}
    (hstats : h.appStates.hostStats = some stats) :
    dispatch P o exec h now false s (some fd) q.cmd =
      some ({ h with clientTable := q.table s h.clientTable }, reply (q.answer stats.offset)) := by
  cases q with
  | ping | listeningPort | capa => rfl
  | psync =>
    have hpsync : cmdPsync h "?" (-1) s =
        ({ h with clientTable := h.clientTable.setSlave s }, reply (psync.answer stats.offset)) := by
      unfold cmdPsync
      rw [if_pos ⟨rfl, rfl⟩, hstats]
      rfl
    exact congrArg some hpsync

theorem pass {cmd : Cmd} (ha : Admitted s h) : ¬ (!cmd.isAuthCmd && !h.auth.checkAuth s) = true := by
  have hauth : h.auth.checkAuth s = true := decide_eq_true ha.auth
  rw [hauth]
  simp

theorem respond_request (ha : Admitted s h) (hmaster : h.clientTable.master ≠ some s)
    (hstats : h.appStates.hostStats = some stats) (hstatus : client.replState.status = none) (hq : q.Fits) :
    client.respond P o h s fd q.value = some (client, served h s q, (q.answer stats.offset).frame) := by
  have hnot : h.clientTable.isMaster s = false := decide_eq_false hmaster
  have hkind : q.cmd.toBeBroadcast = false := by cases q <;> rfl
  have hexecute : h.execute P o q.cmd q.value.frame s fd =
      some (served h s q, .ok (.bytes (q.answer stats.offset).frame)) := by
    have hprepared : (h.prepared q.cmd h.appStates).appStates.hostStats = some stats := hstats
    rw [ha.execute_eq (by rw [hkind, Bool.false_and]), dispatch_request hprepared, Option.bind_some, hnot]
    have hflags : q.cmd.isFlagList = false ∧ q.cmd.isFlagStream = false := by cases q <;> exact ⟨rfl, rfl⟩
    simp only [reply, conclude, propagate, countFromMaster, hkind, hflags, Bool.false_eq_true, if_false, Bool.not_false,
      Bool.true_or, if_true, serialize_answer, Option.map_some]
    rfl
  have hreturned : (h.handle P o (.ok q.cmd) q.value.frame s fd).map (fun x => (x.1, returned x.2)) =
      (h.execute P o q.cmd q.value.frame s fd).map fun x => (x.1, (outputOf x.2).extractBytes.getD []) :=
    ha.handle_returned
  rw [hexecute, Option.map_some] at hreturned
  have hmapped := congrArg (Option.map fun x => (client, x)) hreturned
  rw [Option.map_map] at hmapped
  simp only [TcpClient.respond, (wellFormed hq).serialize, fromResp hq]
  rw [if_neg (pass ha), hstatus]
  exact hmapped

/-! ## The replica -/

variable {m port : Nat} {r : Replica}

theorem step_answer (ha : Admitted m r.handler) (hlink : r.link.replState = { status := some .master })
    (hstate : r.link.handshakeState = q.state) (hq : q ≠ psync) (hstats : r.handler.appStates.hostStats = some stats)
    (hport : stats.port = some port) : r.step P m fd (.frame o (q.answer offset)) =
      some ({ r with link := { r.link with handshakeState := (q.next port).state } }, (q.next port).value.frame) := by
  have hcmd : ∃ cmd, Cmd.fromResp P (q.answer offset) = .ok (.ok cmd) ∧
      r.link.handshakeToMaster P o r.handler cmd (q.answer offset).frame m fd =
        some ({ r.link with handshakeState := (q.next port).state }, r.handler, .ok (q.next port).value.frame) := by
    cases q with
    | ping =>
      refine ⟨.pong, rfl, ?_⟩
      unfold TcpClient.handshakeToMaster TcpClient.getReplconf1
      rw [hstate]
      simp only [hstats, hport]
      rfl
    | listeningPort =>
      refine ⟨.ok, rfl, ?_⟩
      unfold TcpClient.handshakeToMaster
      rw [hstate]
      rfl
    | capa =>
      have hpsync : r.link.getPsync = .ok psync.value.frame := by
        unfold TcpClient.getPsync
        rw [hlink]
        rfl
      refine ⟨.ok, rfl, ?_⟩
      unfold TcpClient.handshakeToMaster
      rw [hstate, hpsync]
      rfl
    | psync => exact absurd rfl hq
  obtain ⟨cmd, hfrom, hhandshake⟩ := hcmd
  have hstatus : r.link.replState.status = some .master := by rw [hlink]
  simp only [Replica.step, TcpClient.respond, serialize_answer, hfrom]
  rw [if_neg (pass ha), hstatus]
  simp only [hhandshake]
  rfl

/-- The replica takes the link for the one to its master. -/
theorem step_fullresync (ha : Admitted m r.handler) (hlink : r.link.replState.status = some .master)
    (hstate : r.link.handshakeState = .psync) (hfits : offset < 2 ^ 63) :
    r.step P m fd (.frame o (fullresync offset)) =
      some ({ link := { r.link with handshakeState := .established, parseRdb := true },
              handler := { r.handler with clientTable := r.handler.clientTable.setMaster m } }, []) := by
  simp only [Replica.step, TcpClient.respond, wellFormed_fullresync.serialize, fromResp_fullresync hfits]
  rw [if_neg (pass ha), hlink]
  unfold TcpClient.handshakeToMaster
  simp only [hstate]
  rfl

theorem step_snapshot (ha : Admitted m r.handler) (hlink : r.link.replState.status = some .master)
    (hstate : r.link.handshakeState = .established) (hstats : r.handler.appStates.hostStats = some stats) :
    r.step P m fd (.frame o snapshot) =
      some ({ link := { r.link with parseRdb := false },
              handler := { r.handler with
                appStates := { r.handler.appStates with hostStats := some stats.startBytesCount } } }, []) := by
  have hserialize : snapshot.serialize = some snapshot.frame := rfl
  have hfrom : Cmd.fromResp P snapshot = .ok (.ok (.rdb emptyRdb)) := rfl
  simp only [Replica.step, TcpClient.respond, hserialize, hfrom]
  rw [if_neg (pass ha), hlink]
  unfold TcpClient.handshakeToMaster
  simp only [hstate, hstats]
  rfl

end

end Request

end Redis
