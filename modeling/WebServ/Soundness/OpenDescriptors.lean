import WebServ.Soundness.Connections

/-! # Which descriptors a step opens and closes

`accept` opens the descriptor it is given, if the server is not busy. Every other step closes what `closes`
says and opens nothing.
-/

namespace WebServ.Http

namespace Server

variable {server next : Server} {event : Event}

theorem front_of_batch {fd : ℕ} {cause : ClientEvent} {rest : List Ready}
    (batch : server.batch = .client fd cause :: rest) : server.front = [fd] := by
  rw [front, batch]
  rfl

/-- Putting a timer off leaves the descriptors alone. -/
theorem postponeTimer_openFds {slot : ℕ} (postponed : server.postponeTimer slot = some next) :
    next.openFds = server.openFds := by
  obtain ⟨_, rfl⟩ := postponeTimer_eq_some postponed
  rfl

theorem closeFd_openFds (server : Server) (fd : ℕ) :
    (server.closeFd fd).openFds = server.openFds.filter (· ∉ [fd]) := by
  rw [openFds, openFds, closeFd, List.filter_map]
  congr 1
  apply List.filter_congr
  intro descriptor _
  simp

/-- `accept` opens the descriptor; a full server closes it again. -/
theorem openFds_accept {fd : ℕ} (stepped : server.step (.accept fd) = some next) :
    next.openFds = if (maxFd : ℤ) ≤ server.userCount then server.openFds else fd :: server.openFds := by
  cases taken_of_step stepped with
  | close _ event_eq => simp at event_eq
  | accept batch isNew accepted =>
    rw [acceptConn] at accepted
    split_ifs at accepted with full
    · cases accepted
      rw [if_pos full]
      rfl
    · cases accepted
      rw [if_neg full]
      rfl

/-- Any other step closes descriptors only. -/
theorem openFds_step (other : ∀ fd, event ≠ .accept fd) (stepped : server.step event = some next) :
    next.openFds = server.openFds.filter (· ∉ server.closes event) := by
  have kept : ∀ {fds : List ℕ}, fds = server.openFds → fds = server.openFds.filter (· ∉ ([] : List ℕ)) := by
    rintro _ rfl
    exact (List.filter_eq_self.mpr fun _ _ => by simp).symm
  cases taken_of_step stepped with
  | advance => exact kept rfl
  | epollWait => exact kept (server.disarm_openFds _)
  | acceptFails => exact kept rfl
  | accept => exact absurd rfl (other _)
  | signals => exact kept rfl
  | close fd event_eq batch closed =>
    have closes : server.closes event = [fd] := by
      rcases event_eq with rfl | rfl | rfl <;> exact front_of_batch batch
    obtain ⟨_, rfl⟩ := closeByTimer_eq_some closed
    rw [closes]
    exact server.closeFd_openFds fd
  | read _ _ postponed =>
    exact kept ((postponeTimer_openFds postponed).trans ((touch_openFds _ _).trans (append_openFds _ _)))
  | write _ _ postponed =>
    exact kept ((postponeTimer_openFds postponed).trans ((touch_openFds _ _).trans (modfd_openFds _ _ _)))
  | writeClosed _ _ postponed =>
    exact kept ((postponeTimer_openFds postponed).trans (modfd_openFds _ _ _))
  | endBatch =>
    rw [openFds, openFds, (endBatch_frame stepped).1, List.filter_map, closes]
    congr 1
    apply List.filter_congr
    intro descriptor _
    cases server.timeout <;> simp
  | take => exact kept rfl
  | finish => exact kept (server.modfd_openFds _ _)
  | @closeConn slot =>
    rw [closes]
    obtain ⟨_, ⟨fd, pointer, rfl⟩ | ⟨pointer, rfl⟩⟩ := closeConn_eq_some stepped
    · rw [pointer, Option.toList_some]
      exact server.closeFd_openFds fd
    · rw [pointer, Option.toList_none]
      exact kept rfl
  | finishClosed => exact kept (server.modfd_openFds _ _)

/-- A descriptor that a step does not close stays open. -/
theorem openFds_of_step (stepped : server.step event = some next) {slot : ℕ}
    (isOpen : slot ∈ server.openFds) (spared : slot ∉ server.closes event) : slot ∈ next.openFds := by
  by_cases accepts : ∃ fd, event = .accept fd
  · obtain ⟨fd, rfl⟩ := accepts
    rw [openFds_accept stepped]
    split_ifs
    · exact isOpen
    · exact List.mem_cons_of_mem _ isOpen
  · rw [openFds_step (fun fd same => accepts ⟨fd, same⟩) stepped]
    exact List.mem_filter.mpr ⟨isOpen, decide_eq_true spared⟩

end Server

end WebServ.Http
