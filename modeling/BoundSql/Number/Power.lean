attribute [instance (high), default_instance high + 1] instPowNat
