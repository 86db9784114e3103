/-!
# Powers of whole numbers

Powers are those of the core library, also in modules where algebra brings an
instance of its own. A power in a definition is then the same term in every
theorem about it.
-/

attribute [instance (high), default_instance (high + 1)] instPowNat
