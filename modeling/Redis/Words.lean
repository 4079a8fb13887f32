import Redis.CmdBuilder
import Redis.CmdHandler
import Redis.Lib.Frame

/-!
# Requests as words

A request is an array of texts, and the first of them names the builder.
-/

namespace Redis

open Lib

namespace Cmd

variable {P : Platform} {word : String} {args : List String} {b : Args Cmd}

theorem fromResp_bulks (hword : word.utf8ByteSize ≠ 0) (hb : (builders P).lookup (asciiUpper word) = some b) :
    fromResp P (.arrayOf ((word :: args).map .bulk)) = runBuilder b (args.map .bulk) := by
  have hlength : ((word :: args).map RespType.bulk).length ≠ 0 := by simp
  unfold fromResp RespType.arrayOf
  simp only [if_neg hlength]
  simp [RespType.bulk, hword, hb]

theorem lookup_replconf : (builders P).lookup (asciiUpper "REPLCONF") = some buildReplconf := by
  have hupper : asciiUpper "REPLCONF" = "REPLCONF" := by decide
  rw [hupper]
  simp [builders, List.lookup_cons]

theorem fromResp_getAck : fromResp P CmdHandler.getAck = .ok (.ok (.replconf (.getAck "*"))) := by
  have hword : "REPLCONF".utf8ByteSize ≠ 0 := by decide
  have hdecode : fromResp P (.arrayOf (["REPLCONF", "GETACK", "*"].map .bulk)) =
      runBuilder buildReplconf (["GETACK", "*"].map .bulk) := fromResp_bulks hword lookup_replconf
  exact hdecode.trans rfl

/-! ## The handshake -/

theorem fromResp_ping : fromResp P (.arrayOf (["PING"].map .bulk)) = .ok (.ok .ping) := by
  have hword : "PING".utf8ByteSize ≠ 0 := by decide
  have hupper : asciiUpper "PING" = "PING" := by decide
  have hping : (builders P).lookup (asciiUpper "PING") = some (pure .ping) := by
    rw [hupper]
    simp [builders]
  exact (fromResp_bulks hword hping).trans rfl

theorem set_listeningPort {port : Nat} (hport : port < 2 ^ 16) :
    CmdArg.set "listening-port" [toString port] = .ok (.listeningPort port) := by
  have hparse : parseUint (2 ^ 16 - 1) (toString port) = .ok port := parseUint_toString (by omega)
  have hset : CmdArg.set "listening-port" [toString port] =
      ((parseUint (2 ^ 16 - 1) (toString port)).mapError .ofIntError).map .listeningPort := rfl
  rw [hset, hparse]
  rfl

theorem fromResp_listeningPort {port : Nat} (hport : port < 2 ^ 16) :
    fromResp P (.arrayOf (["REPLCONF", "listening-port", toString port].map .bulk)) =
      .ok (.ok (.replconf (.listeningPort port))) := by
  have hword : "REPLCONF".utf8ByteSize ≠ 0 := by decide
  have hbuild : buildReplconf (["listening-port", toString port].map .bulk) =
      (do return .replconf (← Args.lift (CmdArg.set "listening-port" [toString port])) : Args Cmd) [] := rfl
  have hdecode : fromResp P (.arrayOf (["REPLCONF", "listening-port", toString port].map .bulk)) =
      runBuilder buildReplconf (["listening-port", toString port].map .bulk) := fromResp_bulks hword lookup_replconf
  rw [hdecode, runBuilder, hbuild, set_listeningPort hport]
  rfl

theorem fromResp_capa : fromResp P (.arrayOf (["REPLCONF", "capa", "psync2"].map .bulk)) =
    .ok (.ok (.replconf (.capa "psync2"))) := by
  have hword : "REPLCONF".utf8ByteSize ≠ 0 := by decide
  have hdecode : fromResp P (.arrayOf (["REPLCONF", "capa", "psync2"].map .bulk)) =
      runBuilder buildReplconf (["capa", "psync2"].map .bulk) := fromResp_bulks hword lookup_replconf
  exact hdecode.trans rfl

theorem fromResp_psync : fromResp P (.arrayOf (["PSYNC", "?", "-1"].map .bulk)) = .ok (.ok (.psync "?" (-1))) := by
  have hword : "PSYNC".utf8ByteSize ≠ 0 := by decide
  have hupper : asciiUpper "PSYNC" = "PSYNC" := by decide
  have hpsync : (builders P).lookup (asciiUpper "PSYNC") = some buildPsync := by
    rw [hupper]
    simp [builders, List.lookup_cons]
  exact (fromResp_bulks hword hpsync).trans rfl

theorem strTo_front (front rest : String) : strTo front.utf8ByteSize (front ++ rest) = .ok front := by
  have hbytes : (utf8 (front ++ rest)).take front.utf8ByteSize = utf8 front := by
    rw [utf8_append, ← length_utf8, List.take_left]
  unfold strTo
  rw [if_neg (by rw [String.utf8ByteSize_append]; omega), hbytes, fromUtf8_utf8]
  rfl

theorem fromResp_fullresync {offset : Int} (hlow : 0 ≤ offset) (hhigh : offset < 2 ^ 63) :
    fromResp P (.simpleStr (some ("FULLRESYNC 8371b4fb1155b71f4a04d3e1bc3e18c4a990aeeb " ++ toString offset))) =
      .ok (.ok (.fullresync "8371b4fb1155b71f4a04d3e1bc3e18c4a990aeeb" offset)) := by
  obtain ⟨n, rfl⟩ := Int.eq_ofNat_of_zero_le hlow
  have hwords : "FULLRESYNC 8371b4fb1155b71f4a04d3e1bc3e18c4a990aeeb " ++ toString (n : Int) =
      "FULLRESYNC" ++ String.singleton ' ' ++
        ("8371b4fb1155b71f4a04d3e1bc3e18c4a990aeeb" ++ String.singleton ' ' ++ toString n) := by
    have hn : toString (n : Int) = toString n := rfl
    have hfront : "FULLRESYNC 8371b4fb1155b71f4a04d3e1bc3e18c4a990aeeb " =
        "FULLRESYNC" ++ String.singleton ' ' ++
            ("8371b4fb1155b71f4a04d3e1bc3e18c4a990aeeb" ++ String.singleton ' ') := by
      decide
    rw [hn, hfront, String.append_assoc, String.append_assoc, String.append_assoc]
  have hsplit : splitOnChar ' ' ("FULLRESYNC 8371b4fb1155b71f4a04d3e1bc3e18c4a990aeeb " ++ toString (n : Int)) =
      ["FULLRESYNC", "8371b4fb1155b71f4a04d3e1bc3e18c4a990aeeb", toString n] := by
    rw [hwords, splitOnChar_append, splitOnChar_append, splitOnChar_of_not_mem (by decide),
      splitOnChar_of_not_mem (by decide), splitOnChar_of_not_mem (not_mem_toString (by decide) n)]
    rfl
  have hparse : parseInt (2 ^ 63) (toString n) = .ok (n : Int) :=
    parseInt_toString (i := n) (by omega) (by exact_mod_cast hhigh)
  have hbuild : buildFullresync ("FULLRESYNC 8371b4fb1155b71f4a04d3e1bc3e18c4a990aeeb " ++ toString (n : Int)) =
      .ok (.fullresync "8371b4fb1155b71f4a04d3e1bc3e18c4a990aeeb" n) := by
    unfold buildFullresync
    rw [hsplit]
    simp only [hparse]
    rfl
  have hfirst : ∀ t, "FULLRESYNC 8371b4fb1155b71f4a04d3e1bc3e18c4a990aeeb " ++ t ≠ "PONG" ∧
      "FULLRESYNC 8371b4fb1155b71f4a04d3e1bc3e18c4a990aeeb " ++ t ≠ "OK" := by
    intro t
    constructor
    · intro heq
      have hlist := congrArg String.toList heq
      rw [String.toList_append] at hlist
      simp at hlist
    · intro heq
      have hlist := congrArg String.toList heq
      rw [String.toList_append] at hlist
      simp at hlist
  have hto : strTo 10 ("FULLRESYNC 8371b4fb1155b71f4a04d3e1bc3e18c4a990aeeb " ++ toString (n : Int)) =
      .ok "FULLRESYNC" := by
    have hfront : "FULLRESYNC 8371b4fb1155b71f4a04d3e1bc3e18c4a990aeeb " ++ toString (n : Int) =
        "FULLRESYNC" ++ (" 8371b4fb1155b71f4a04d3e1bc3e18c4a990aeeb " ++ toString (n : Int)) := by
      rw [← String.append_assoc]
      rfl
    rw [hfront]
    exact strTo_front "FULLRESYNC" _
  unfold fromResp
  simp only [if_neg (hfirst _).1, if_neg (hfirst _).2, hto, hbuild, Except.map, if_true]

end Cmd

end Redis
