import TapeMachine.Library

/-!
# The Built-In Libraries

Five machines for arithmetic. A number `n` is written as `n + 1` cells with 1, and arguments are
separated by one 0. Every library starts in `q0` on the leftmost 1 of its first argument and
leaves its result as the number of cells with 1.
-/

namespace TapeMachine.Library

/-- Adds two numbers: one 1 of each argument is dropped. -/
def sum : Library where
  name := "sum"
  description := "a + b"
  initialState := "q0"
  finalState := "q2"
  usedStates := ["q0", "q1", "q2", "q3"]
  code := "
    // Drop one 1 from each argument; the separator is left in place.
    (q0, 1, 0, R, q1);
    (q1, 1, 1, R, q1);
    (q1, 0, 0, R, q3);
    (q3, 1, 0, H, q2);
    "

/-- Doubles a number: for each 1 taken from the argument two are written at the end. -/
def double : Library where
  name := "double"
  description := "2 * a"
  initialState := "q0"
  finalState := "q8"
  usedStates := ["q0", "q1", "q2", "q3", "q4", "q5", "q6", "q7", "q8"]
  code := "
    (q0, 1, 0, R, q1);

    // Take one 1 from the argument...
    (q1, 1, 0, R, q2);
    (q1, 0, 0, H, q8);
    (q2, 1, 1, R, q2);
    (q2, 0, 0, R, q3);

    // ...and write two at the end of the result
    (q3, 1, 1, R, q3);
    (q3, 0, 1, R, q4);
    (q4, 0, 1, L, q5);

    // Back to the leftmost 1 of what is left of the argument
    (q5, 1, 1, L, q5);
    (q5, 0, 0, L, q6);
    (q6, 1, 1, L, q7);
    (q6, 0, 0, H, q8);
    (q7, 1, 1, L, q7);
    (q7, 0, 0, R, q1);
    "

/-- The remainder by two, found by erasing the argument while counting its parity. -/
def mod2 : Library where
  name := "mod2"
  description := "a mod 2"
  initialState := "q0"
  finalState := "q3"
  usedStates := ["q0", "q1", "q2", "q3"]
  code := "
    (q0, 1, 0, R, q1);
    // q1: even so far, q2: odd so far
    (q1, 1, 0, R, q2);
    (q1, 0, 0, H, q3);
    (q2, 1, 0, R, q1);
    (q2, 0, 1, H, q3);
    "

/-- Halves a number: of each pair of 1 cells one is kept. -/
def div2 : Library where
  name := "div2"
  description := "a / 2, rounded down"
  initialState := "q0"
  finalState := "q3"
  usedStates := ["q0", "q1", "q2", "q3"]
  code := "
    (q0, 1, 0, R, q1);
    // Erase one 1 of every pair, keep the other
    (q1, 1, 0, R, q2);
    (q1, 0, 0, H, q3);
    (q2, 1, 1, R, q1);
    (q2, 0, 0, H, q3);
    "

/-- Subtracts, but not below 0: each round erases a 1 at the left of the second argument and one
at the right of the first. -/
def monus : Library where
  name := "monus"
  description := "a - b, or 0 when b > a"
  initialState := "q0"
  finalState := "q18"
  usedStates :=
    ["q0", "q1", "q2", "q3", "q4", "q5", "q6", "q7", "q8", "q9", "q10", "q11", "q12", "q13",
     "q14", "q15", "q16", "q17", "q18"]
  code := "
    // The leftmost 1 of a is kept as a sentinel until the end.
    (q0, 1, 1, R, q1);
    (q1, 1, 1, R, q1);
    (q1, 0, 0, R, q2);
    (q2, 1, 0, R, q3);

    // Erase the leftmost 1 of b and check whether it was the last one
    (q3, 1, 0, R, q4);
    (q3, 0, 0, L, q13);
    (q4, 1, 1, L, q5);
    (q4, 0, 0, L, q9);

    // More of b left: erase the rightmost 1 of a and come back
    (q5, 0, 0, L, q5);
    (q5, 1, 1, L, q6);
    (q6, 1, 1, R, q7);
    (q6, 0, 0, R, q15);
    (q7, 1, 0, R, q8);
    (q8, 0, 0, R, q8);
    (q8, 1, 1, H, q3);

    // That was the last 1 of b: erase the rightmost 1 of a, then the sentinel
    (q9, 0, 0, L, q9);
    (q9, 1, 1, L, q10);
    (q10, 1, 1, R, q11);
    (q10, 0, 0, R, q14);
    (q11, 1, 0, L, q12);
    (q12, 1, 1, L, q12);
    (q12, 0, 0, R, q14);
    (q13, 0, 0, L, q13);
    (q13, 1, 1, L, q12);
    (q14, 1, 0, H, q18);

    // a ran out first: erase the sentinel and what is left of b
    (q15, 1, 0, R, q16);
    (q16, 0, 0, R, q16);
    (q16, 1, 0, R, q17);
    (q17, 1, 0, R, q17);
    (q17, 0, 0, H, q18);
    "

end TapeMachine.Library

namespace TapeMachine

/-- The built-in libraries under their names. -/
def Registry.builtin : Registry where
  libraries := [.sum, .double, .mod2, .div2, .monus]
  distinct := by decide

end TapeMachine
