import WebServ.Model.Server
import WebServ.Machine.FirstFree

/-! # The server and the descriptors it shares its numbers with

Clients get their descriptors from the same numbers as the standard streams, the log file, the database
connections, the listening socket, epoll, the signal pipe and the files of responses. The kernel gives out the
lowest number not in use, up to a limit of the process. The other descriptors come and go as the environment
likes; the server may close one of them too, since `close` is given a number only. `admitted` lists, for the
statements only, the numbers that pass the check of `m_user_count`; one that is no index of `users` and
`users_timer` leaves the program undefined.
-/

namespace WebServ.Http

open WebServ.Machine

/-- The server among the other descriptors of its process. -/
structure DescriptorTable where
  server : Server
  others : List ℕ
  admitted : List ℕ
  undefined : Bool

/-- The label of a step. -/
inductive TableEvent where
  | server (event : Event)
  | openOther
  | closeOther (fd : ℕ)
deriving DecidableEq, Repr

namespace DescriptorTable

/-- No connection yet. -/
def initial (clock : ℕ) (others : List ℕ) : DescriptorTable where
  server := .initial clock
  others := others
  admitted := []
  undefined := false

/-- All numbers in use. -/
def used (table : DescriptorTable) : List ℕ := table.server.openFds ++ table.others

/-- `accept` with the check behind it: a number that is no index is used as one all the same. -/
def accept (table : DescriptorTable) (fd : ℕ) : Option DescriptorTable :=
  match table.server.batch with
  | .listen :: _ =>
      if (maxFd : ℤ) ≤ table.server.userCount then
        (table.server.step (.accept fd)).map fun server => { table with server }
      else if fd < maxFd then
        (table.server.step (.accept fd)).map fun server =>
          { table with server, admitted := table.admitted ++ [fd] }
      else some { table with admitted := table.admitted ++ [fd], undefined := true }
  | _ => none

/-- One step, with the limit of the process. -/
def step (limit : ℕ) (table : DescriptorTable) (event : TableEvent) : Option DescriptorTable :=
  if table.undefined then none
  else
    match event with
    | .server (.accept fd) =>
        if fd = firstFree table.used ∧ fd < limit then table.accept fd else none
    | .server event =>
        (table.server.step event).map fun server =>
          { table with server, others := table.others.filter (· ∉ table.server.closes event) }
    | .openOther =>
        if firstFree table.used < limit then
          some { table with others := firstFree table.used :: table.others }
        else none
    | .closeOther fd =>
        if fd ∈ table.others then some { table with others := table.others.erase fd } else none

end DescriptorTable

end WebServ.Http
