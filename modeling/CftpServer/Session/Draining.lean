import CftpServer.Session.Upload

/-!
# The loop that drains an upload (`actions/stor.c`)

`while (evbuffer_get_length(input) > 0) evbuffer_write(input, connection->upload_fd);` looks at the length of the input
only. `answering` is a system in which the results of `evbuffer_write` are a given sequence.

* `drainInput_done`: the loop ends once the writes have taken all of the input
* `drainInput_stuck`: it does not end while some of it is left
* `drain_ends_iff`: so it ends exactly if the writes take all of the input sometime
-/

namespace CftpServer.Session

open CLib

variable {σ : Type}

/-- The same system, with the results of `evbuffer_write` one after the other; `none` is a failure. The second
component of its state counts the writes. -/
def answering (env : Env σ) (results : Nat → Option Nat) : Env (σ × Nat) where
  pasvRange := env.pasvRange
  after := fun os proc e =>
    (env.after os.1 proc e,
      match e with
      | .store _ _ _ _ => os.2 + 1
      | _ => os.2)
  getpwnam := fun os => env.getpwnam os.1
  getspnam := fun os => env.getspnam os.1
  crypt := env.crypt
  resolve := fun os => env.resolve os.1
  chroot := fun os => env.chroot os.1
  chdir := fun os => env.chdir os.1
  setgid := fun os => env.setgid os.1
  setuid := fun os => env.setuid os.1
  getcwd := fun os => env.getcwd os.1
  stat := fun os => env.stat os.1
  lstat := fun os => env.lstat os.1
  openRead := fun os => env.openRead os.1
  openWrite := fun os => env.openWrite os.1
  opendir := fun os => env.opendir os.1
  unlink := fun os => env.unlink os.1
  mkdir := fun os => env.mkdir os.1
  rmdir := fun os => env.rmdir os.1
  fstat := fun os => env.fstat os.1
  read := fun os => env.read os.1
  fileSegment := fun os => env.fileSegment os.1
  evbufferWrite := fun os _ bytes => (results os.2).map fun n => min n bytes.length
  getsockname := fun os => env.getsockname os.1
  newBind := fun os => env.newBind os.1
  bufferevent := fun os => env.bufferevent os.1
  askRootForUsername := fun os => env.askRootForUsername os.1
  askRootForGroupname := fun os => env.askRootForGroupname os.1
  strftimeGmt := env.strftimeGmt
  strftimeLocal := env.strftimeLocal
  spin := env.spin
  stack := env.stack

/-- How many bytes so many writes from a number on take at most. -/
def taken (results : Nat → Option Nat) : Nat → Nat → Nat
  | _, 0 => 0
  | i, k + 1 => (results i).getD 0 + taken results (i + 1) k

/-- With enough rounds the function comes to an end. -/
def Ends (f : Nat → Session σ) : Prop := ∃ limit, ∀ spin, limit ≤ spin → (f spin).ended ≠ some .hung

section Loop

variable (env : Env σ) (results : Nat → Option Nat) (spin : Nat)

/-- One write: what it takes leaves the input. -/
theorem evbufferWrite_answering {b : Nat} {v : Bev} (s : Session (σ × Nat)) (hfd : 0 ≤ s.conn.uploadFd) :
    (evbufferWrite { answering env results with spin := spin } b v s).bevs b =
        some { v with input := v.input.drop (min ((results s.os.2).getD 0) v.input.length) } ∧
      (evbufferWrite { answering env results with spin := spin } b v s).os.2 = s.os.2 + 1 ∧
      (evbufferWrite { answering env results with spin := spin } b v s).conn = s.conn ∧
      (evbufferWrite { answering env results with spin := spin } b v s).ended = s.ended := by
  have hopen : ¬ s.conn.uploadFd < 0 := by omega
  have hn : ((results s.os.2).map fun n => min n v.input.length).getD 0 =
      min ((results s.os.2).getD 0) v.input.length := by
    cases results s.os.2 <;> simp
  refine ⟨?_, rfl, rfl, rfl⟩
  simp only [evbufferWrite, if_neg hopen, emit, answering, hn, Function.update_self]

/-- Without a descriptor nothing is taken. -/
theorem evbufferWrite_closed {b : Nat} {v : Bev} (s : Session (σ × Nat)) (hfd : s.conn.uploadFd < 0) :
    (evbufferWrite { answering env results with spin := spin } b v s).bevs b = some v ∧
      (evbufferWrite { answering env results with spin := spin } b v s).conn = s.conn := by
  refine ⟨?_, rfl⟩
  simp only [evbufferWrite, if_pos hfd, emit, Option.getD_none, List.drop_zero, Function.update_self]

theorem drainInput_empty {b : Nat} {v : Bev} (fuel : Nat) {s : Session (σ × Nat)} (hv : s.bevs b = some v)
    (hinput : v.input = []) :
    drainInput { answering env results with spin := spin } b (fuel + 1) s = s := by
  simp only [drainInput, hv, if_pos hinput]

theorem drainInput_round {b : Nat} {v : Bev} (fuel : Nat) {s : Session (σ × Nat)} (hv : s.bevs b = some v)
    (hinput : v.input ≠ []) :
    drainInput { answering env results with spin := spin } b (fuel + 1) s =
      drainInput { answering env results with spin := spin } b fuel
        (evbufferWrite { answering env results with spin := spin } b v s) := by
  simp only [drainInput, hv, if_neg hinput]

/-- **The loop ends once the writes have taken all of the input.** -/
theorem drainInput_done {b : Nat} : ∀ (k : Nat) {s : Session (σ × Nat)} {v : Bev}, s.bevs b = some v →
    0 ≤ s.conn.uploadFd → v.input.length ≤ taken results s.os.2 k → ∀ fuel, k < fuel →
    (drainInput { answering env results with spin := spin } b fuel s).ended = s.ended
  | k, s, v, hv, hfd, htaken, fuel + 1, hfuel => by
    by_cases hinput : v.input = []
    · rw [drainInput_empty env results spin fuel hv hinput]
    cases k with
    | zero => exact absurd (List.eq_nil_of_length_eq_zero (Nat.le_zero.mp htaken)) hinput
    | succ k =>
      obtain ⟨hbev, hos, hconn, hended⟩ := evbufferWrite_answering env results spin (b := b) (v := v) s hfd
      rw [drainInput_round env results spin fuel hv hinput, drainInput_done k hbev (by rw [hconn]; exact hfd) ?_ fuel
        (by omega), hended]
      rw [hos, List.length_drop]
      simp only [taken] at htaken
      omega

/-- **It does not end while some of it is left.** -/
theorem drainInput_stuck {b : Nat} : ∀ (fuel : Nat) {s : Session (σ × Nat)} {v : Bev}, s.bevs b = some v →
    0 ≤ s.conn.uploadFd → (∀ k, taken results s.os.2 k < v.input.length) →
    (drainInput { answering env results with spin := spin } b fuel s).ended = some .hung
  | 0, _, _, _, _, _ => rfl
  | fuel + 1, s, v, hv, hfd, htaken => by
    have hinput : v.input ≠ [] := List.ne_nil_of_length_pos (htaken 0)
    obtain ⟨hbev, hos, hconn, -⟩ := evbufferWrite_answering env results spin (b := b) (v := v) s hfd
    rw [drainInput_round env results spin fuel hv hinput]
    refine drainInput_stuck fuel hbev (by rw [hconn]; exact hfd) fun k => ?_
    have hnext := htaken (k + 1)
    rw [hos, List.length_drop]
    simp only [taken] at hnext
    omega

/-- Nor without a descriptor. -/
theorem drainInput_closed {b : Nat} {v : Bev} (hinput : v.input ≠ []) : ∀ (fuel : Nat) {s : Session (σ × Nat)},
    s.bevs b = some v → s.conn.uploadFd < 0 →
    (drainInput { answering env results with spin := spin } b fuel s).ended = some .hung
  | 0, _, _, _ => rfl
  | fuel + 1, s, hv, hfd => by
    obtain ⟨hbev, hconn⟩ := evbufferWrite_closed env results spin (b := b) (v := v) s hfd
    rw [drainInput_round env results spin fuel hv hinput]
    exact drainInput_closed hinput fuel hbev (by rw [hconn]; exact hfd)

end Loop

/-- The loop of a buffered input ends exactly if there is none, or the writes take all of it sometime. -/
theorem drainInput_ends_iff (env : Env σ) (results : Nat → Option Nat) {s : Session (σ × Nat)} {b : Nat} {v : Bev}
    (hs : s.ended = none) (hv : s.bevs b = some v) :
    Ends (fun spin => drainInput { answering env results with spin := spin } b spin s) ↔
      v.input = [] ∨ 0 ≤ s.conn.uploadFd ∧ ∃ k, v.input.length ≤ taken results s.os.2 k := by
  constructor
  · rintro ⟨limit, hends⟩
    by_contra hcon
    obtain ⟨hinput, hopen⟩ := not_or.mp hcon
    refine hends limit (Nat.le_refl _) ?_
    by_cases hfd : 0 ≤ s.conn.uploadFd
    · have hleft : ∀ k, taken results s.os.2 k < v.input.length := by
        intro k
        by_contra hle
        exact hopen ⟨hfd, k, Nat.le_of_not_lt hle⟩
      exact drainInput_stuck env results limit limit hv hfd hleft
    · exact drainInput_closed env results limit hinput limit hv (by omega)
  · rintro (hinput | ⟨hfd, k, hk⟩)
    · refine ⟨1, fun spin hspin => ?_⟩
      obtain ⟨fuel, rfl⟩ := Nat.exists_eq_succ_of_ne_zero (Nat.ne_of_gt hspin)
      simp only
      rw [drainInput_empty env results _ fuel hv hinput, hs]
      exact Option.some_ne_none _ |>.symm
    · refine ⟨k + 1, fun spin hspin => ?_⟩
      simp only
      rw [drainInput_done env results spin k hv hfd hk spin hspin, hs]
      exact (Option.some_ne_none _).symm

/-- The end of an upload hangs where its loop does. -/
theorem onEofEventCb_ended (env : Env σ) {s : Session σ} {b : Nat} (hb : s.conn.dataBev = some b) :
    (onEofEventCb env s).ended = if s.conn.uploadFd ≥ 0 then (drainInput env b env.spin s).ended else s.ended := by
  simp only [onEofEventCb, hb]
  split
  · unfold andThen
    split
    · rfl
    · simp only [sendControlMessage, emit, closeFd_ended]
  · rfl

/-- **An upload is drained exactly if the writes take all of it sometime.** The loop of `on_stor_read` ends if and only
if there is no input, or the descriptor is open and the results of the writes add up to the input after some number of
them; so does that of `on_eof_event_cb`, which is entered with an open descriptor only. -/
theorem drain_ends_iff (env : Env σ) (results : Nat → Option Nat) {s : Session (σ × Nat)} {b : Nat} {v : Bev}
    (hs : s.ended = none) (hv : s.bevs b = some v) :
    (Ends (fun spin => onStorRead { answering env results with spin := spin } b s) ↔
      v.input = [] ∨ 0 ≤ s.conn.uploadFd ∧ ∃ k, v.input.length ≤ taken results s.os.2 k) ∧
    (s.conn.dataBev = some b →
      (Ends (fun spin => onEofEventCb { answering env results with spin := spin } s) ↔
        s.conn.uploadFd < 0 ∨ ∃ k, v.input.length ≤ taken results s.os.2 k)) := by
  refine ⟨drainInput_ends_iff env results hs hv, fun hb => ?_⟩
  by_cases hfd : 0 ≤ s.conn.uploadFd
  · have hsame : Ends (fun spin => onEofEventCb { answering env results with spin := spin } s) ↔
        Ends fun spin => drainInput { answering env results with spin := spin } b spin s := by
      unfold Ends
      simp only [onEofEventCb_ended _ hb, ge_iff_le, if_pos hfd]
    rw [hsame, drainInput_ends_iff env results hs hv]
    constructor
    · rintro (hinput | ⟨-, hk⟩)
      · exact .inr ⟨0, by simp [hinput]⟩
      · exact .inr hk
    · rintro (hclosed | hk)
      · omega
      · exact .inr ⟨hfd, hk⟩
  · refine iff_of_true ⟨0, fun spin _ => ?_⟩ (.inl (by omega))
    simp only [onEofEventCb_ended _ hb, ge_iff_le, if_neg hfd, hs]
    exact (Option.some_ne_none _).symm

/-! ## A full disk -/

/-- A session that receives a file, two bytes of which have arrived. -/
def receiving (results : Nat → Option Nat) : Session (Unit × Nat) :=
  let s := reached (answering Env.permissive results) (.inet 127 0 0 1) ⟨ascii "/", ascii "/", 0, 0, []⟩ ((), 0)
    [.controlRead (ascii "USER alice\r\n"), .controlRead (ascii "PASS x\r\n"), .controlRead (ascii "PASV\r\n"),
      .accept 1 9 (.inet 127 0 0 1), .controlRead (ascii "STOR x\r\n")]
  (s.bevs 3).elim s fun v => dataArrives 3 v (ascii "ab") s

/-- Writes of one byte drain it. -/
theorem drain_ends_bytewise :
    Ends fun spin => onStorRead { answering Env.permissive (fun _ => some 1) with spin := spin } 3
      (receiving fun _ => some 1) :=
  (drain_ends_iff Env.permissive (fun _ => some 1) (s := receiving fun _ => some 1) (b := 3)
    (v := ⟨false, ascii "ab", [], 0, [], []⟩) rfl rfl).1.mpr (.inr ⟨by decide, 2, by decide⟩)

/-- When the disk is full, the loop never ends. -/
theorem drain_fullDisk :
    ¬ (Ends fun spin => onStorRead { answering Env.permissive (fun _ => none) with spin := spin } 3
      (receiving fun _ => none)) := by
  rintro ⟨limit, hends⟩
  have hnothing : ∀ i k, taken (fun _ => none) i k = 0 := by
    intro i k
    induction k generalizing i with
    | zero => rfl
    | succ k ih => simp [taken, ih]
  refine hends limit (Nat.le_refl _) ?_
  refine drainInput_stuck Env.permissive (fun _ => none) limit limit (b := 3) (v := ⟨false, ascii "ab", [], 0, [], []⟩)
    rfl (by decide) fun k => ?_
  rw [hnothing]
  decide

end CftpServer.Session
