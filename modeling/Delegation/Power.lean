/-!
# Powers

Addresses are split at powers of two.  A power of natural numbers is the one of the core
library, also where a library is imported that reads it as a power in a monoid.
-/

attribute [instance (2000)] instPowNat

-- the exponent may be a numeral, whose type is found by default; so this has to come first
attribute [default_instance 20000] instPowNat
