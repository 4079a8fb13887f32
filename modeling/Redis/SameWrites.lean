import Redis.Locality
import Redis.Replay

/-!
# Writes on the same content

A write that does not read the clock looks at the content of the key space only.
So it does the same, with the same result, on any other key space with the same
content, whoever sends it and whenever.
-/

namespace Redis

open Lib

/-! ## Key spaces with the same content -/

def Data.Same (data data' : Data) : Prop := ∀ key, data.lookup key = data'.lookup key

namespace Data.Same

variable {data data' data'' : Data}

theorem refl (data : Data) : Data.Same data data := fun _ => rfl

theorem symm (h : Data.Same data data') : Data.Same data' data := fun key => (h key).symm

theorem trans (h : Data.Same data data') (h' : Data.Same data' data'') : Data.Same data data'' :=
  fun key => (h key).trans (h' key)

end Data.Same

namespace CmdHandler

open Data

section
variable {P : Platform} {o o' : IterOrder}

theorem operate_write {cmd : Cmd} {now now' : Nat} (hkind : cmd.toBeBroadcast = true) (htimed : ¬ Timed cmd)
    (hblpop : ∀ key timeoutMs, cmd ≠ .blpop key timeoutMs) :
    ∃ f, operate P o now cmd = some f ∧ operate P o' now' cmd = some f := by
  cases cmd
  case set key value opt =>
    refine ⟨_, rfl, congrArg some ?_⟩
    funext data
    exact cmdSet_untimed htimed now' now
  case xadd key id value =>
    refine ⟨_, rfl, congrArg some ?_⟩
    funext data
    exact congrArg some (cmdXadd_untimed htimed now' now)
  case rpush | lpush | lpop | incr | setbit | bitop => exact ⟨_, rfl, rfl⟩
  case blpop key timeoutMs => exact absurd rfl (hblpop key timeoutMs)
  all_goals cases hkind

/-- A write that does not read the clock does the same where every key holds the
same, whoever sends it. -/
theorem dispatch_same {exec exec' : CmdHandler → Nat → Option (CmdHandler × CmdResult)} {h g h' : CmdHandler}
    {now now' clientId clientId' : Nat} {isSubscriber isSubscriber' : Bool} {epollFd epollFd' : Option Int} {cmd : Cmd}
    {r : CmdResult} (hsame : Same h.data g.data) (hkind : cmd.toBeBroadcast = true) (htimed : ¬ Timed cmd)
    (hblpop : ∀ key timeoutMs, cmd ≠ .blpop key timeoutMs)
    (hd : dispatch P o exec h now isSubscriber clientId epollFd cmd = some (h', r)) :
    ∃ data', Same h'.data data' ∧
      dispatch P o' exec' g now' isSubscriber' clientId' epollFd' cmd = some ({ g with data := data' }, r) := by
  have hwrite : ∃ f, operate P o now cmd = some f ∧ operate P o' now' cmd = some f := operate_write hkind htimed hblpop
  obtain ⟨f, hf, hf'⟩ := hwrite
  rw [dispatch_operate hf] at hd
  obtain ⟨w, hw, heq⟩ := Option.map_eq_some_iff.mp hd
  cases heq
  have hlocal : HashMap.Local Set.univ f := operate_local hf fun _ _ => trivial
  obtain ⟨data', hdata, hmoves⟩ := hlocal.again (fun key _ => hsame key) hw
  refine ⟨data', fun key => hmoves.inside key trivial, ?_⟩
  rw [dispatch_operate hf', hdata]
  rfl

end

end CmdHandler

end Redis
