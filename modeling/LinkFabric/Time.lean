/-!
# Instants and spans

Time is counted in microseconds from an origin that no rule depends on. It may stand
still or go back between two readings; the span from a later to an earlier instant is
zero.
-/

namespace LinkFabric

/-- A point in time, in microseconds. -/
abbrev Instant := Nat

/-- A length of time, in microseconds. -/
abbrev Span := Nat

namespace Span

/-- A number of milliseconds. -/
def ofMs (n : Nat) : Span := 1000 * n

/-- The whole milliseconds of a span. -/
def toMs (s : Span) : Nat := s / 1000

/-- A number of seconds. -/
def ofSeconds (n : Nat) : Span := 1000000 * n

end Span

/-- The span from `earlier` to `now`, zero if the clock went back. -/
def Instant.since (now earlier : Instant) : Span := now - earlier

theorem Instant.since_le_since {t t' : Instant} (h : t ≤ t') (now : Instant) :
    now.since t' ≤ now.since t :=
  Nat.sub_le_sub_left h now

theorem Instant.lt_of_lt_since {now t : Instant} {n : Span} (h : n < now.since t) : t < now :=
  Nat.lt_of_sub_pos (Nat.zero_lt_of_lt h)

end LinkFabric
